import Iloc.Proofs.Locality

namespace Iloc

/-- The second list is the first with comments put anywhere into it. -/
inductive Annotates : List Token → List Token → Prop where
  | nil : Annotates [] []
  | token {t : Token} {tokens others : List Token} :
      Annotates tokens others → Annotates (t :: tokens) (t :: others)
  | comment {c : Token} {tokens others : List Token} :
      c.kind = .comment → Annotates tokens others → Annotates tokens (c :: others)

theorem Annotates.withoutComments_eq {tokens others : List Token} (annotates : Annotates tokens others) :
    Token.withoutComments others = Token.withoutComments tokens := by
  induction annotates with
  | nil => rfl
  | @token t tokens others _ ih =>
    by_cases comment : t.kind = .comment
    · rw [Token.withoutComments_cons_of_comment comment, ih,
        Token.withoutComments_cons_of_comment comment]
    · rw [Token.withoutComments_cons_of_code comment, ih, Token.withoutComments_cons_of_code comment]
  | comment comment _ ih => rw [Token.withoutComments_cons_of_comment comment, ih]

theorem Begins.withoutComments {n : Node} {tokens : List Token} (begins : Begins n tokens) :
    Begins n (Token.withoutComments tokens) := by
  obtain ⟨piece, conveys, after, rfl⟩ := begins
  obtain ⟨t, taken, rfl, opcode, fits⟩ := conveys.exists_cons
  have code : ∀ u ∈ t :: taken, u.kind ≠ .comment := by
    rw [List.forall_mem_cons]
    exact ⟨by simp [opcode], fun u held => (fits u held).kind_ne_comment⟩
  refine ⟨t :: taken, conveys, Token.withoutComments after, ?_⟩
  rw [Token.withoutComments_append, Token.withoutComments_of_code code]

namespace Program

/-- A comment can cut an instruction short, but it adds nothing that the instruction could take. -/
theorem nodes_start_sublist {t : Token} (code : t.kind ≠ .comment) (rest : List Token) :
    (start t rest).1.nodes.Sublist (start t (Token.withoutComments rest)).1.nodes := by
  rcases nodes_start_cases t rest with ⟨none, -⟩ | ⟨n, single, begins⟩
  · rw [none]
    exact List.nil_sublist _
  · have again := begins.withoutComments
    rw [Token.withoutComments_cons_of_code code] at again
    rw [single, nodes_start_of_begins again]

theorem nodes_sublist_parse (tokens : List Token) :
    (ofTokens tokens).nodes.Sublist (parse tokens).nodes := by
  induction tokens with
  | nil => exact List.Sublist.refl _
  | cons t rest ih =>
    rw [nodes_ofTokens_cons]
    by_cases comment : t.kind = .comment
    · have never : t.kind ≠ .opcode := by simp [comment]
      rw [start_of_kind_ne never, parse, Token.withoutComments_cons_of_comment comment]
      exact ih
    · rw [parse, Token.withoutComments_cons_of_code comment, nodes_ofTokens_cons]
      exact (nodes_start_sublist comment rest).append ih

theorem filter_diagnostics_start (t : Token) (rest : List Token) :
    (start t rest).1.diagnostics.filter (·.problem = .expectedOpcode .comment) =
      if t.kind = .comment then [⟨.number t.line, .expectedOpcode .comment⟩] else [] := by
  rcases start_cases t rest with ⟨-, step⟩ | ⟨kind, -, step⟩ | ⟨op, kind, -, step⟩
  · by_cases comment : t.kind = .comment <;> simp [step, report, comment]
  · simp [step, report, kind]
  · have slots : ∀ d ∈ (fill op.slots rest).diagnostics, d.problem ≠ .expectedOpcode .comment := by
      intro d member
      obtain ⟨slot, problem⟩ := problem_of_mem_fill d member
      simp [problem]
    rw [step, kind, if_neg (by decide)]
    show (fill op.slots rest).diagnostics.filter _ = []
    simpa [List.filter_eq_nil_iff] using slots

/-- No slot takes a comment and none is passed over, so each of them is met where an opcode should be. -/
theorem filter_diagnostics_ofTokens (tokens : List Token) :
    (ofTokens tokens).diagnostics.filter (·.problem = .expectedOpcode .comment) =
      (tokens.filter (·.kind = .comment)).map fun t => ⟨.number t.line, .expectedOpcode .comment⟩ := by
  have silent : ∀ u : Token, u.FitsSlot →
      decide (u.misplaced.problem = .expectedOpcode .comment) = false := by
    intro u fits
    simpa [Token.misplaced] using fits.kind_ne_comment
  induction tokens with
  | nil =>
    rw [ofTokens_nil]
    rfl
  | cons t rest ih =>
    rw [filter_diagnostics_ofTokens_cons silent, filter_diagnostics_start, ih, List.filter_cons]
    by_cases comment : t.kind = .comment <;> simp [comment]

theorem parse_of_code {tokens : List Token} (code : ∀ t ∈ tokens, t.kind ≠ .comment) :
    parse tokens = ofTokens tokens := by
  rw [parse, Token.withoutComments_of_code code]

theorem code_of_clean {tokens : List Token} (clean : (ofTokens tokens).diagnostics = []) :
    ∀ t ∈ tokens, t.kind ≠ .comment := by
  have reported := filter_diagnostics_ofTokens tokens
  rw [clean, List.filter_nil, eq_comm, List.map_eq_nil_iff, List.filter_eq_nil_iff] at reported
  simpa using reported

end Program

open Program (ofTokens parse)

/-- Comments make no difference to a reading that passes them over. To one that does not each of them is a
    report more, and it may cost nodes but adds none; only where there is nothing to report are the two
    readings sure to be the same. -/
theorem comments_are_passed_over_or_reported :
    (∀ tokens others, Annotates tokens others → parse others = parse tokens) ∧
    ∀ tokens,
      (ofTokens tokens).diagnostics.filter (·.problem = .expectedOpcode .comment) =
          (tokens.filter (·.kind = .comment)).map
            (fun t => ⟨.number t.line, .expectedOpcode .comment⟩) ∧
        (ofTokens tokens).nodes.Sublist (parse tokens).nodes ∧
        ((ofTokens tokens).diagnostics = [] ↔
          (∀ t ∈ tokens, t.kind ≠ .comment) ∧ (parse tokens).diagnostics = []) ∧
        ((ofTokens tokens).diagnostics = [] → ofTokens tokens = parse tokens) := by
  refine ⟨?_, ?_⟩
  · intro tokens others annotates
    rw [parse, annotates.withoutComments_eq, parse]
  · intro tokens
    have same : (ofTokens tokens).diagnostics = [] → ofTokens tokens = parse tokens := by
      intro clean
      exact (Program.parse_of_code (Program.code_of_clean clean)).symm
    refine ⟨Program.filter_diagnostics_ofTokens tokens, Program.nodes_sublist_parse tokens, ?_, same⟩
    constructor
    · intro clean
      exact ⟨Program.code_of_clean clean, same clean ▸ clean⟩
    · rintro ⟨code, clean⟩
      rwa [Program.parse_of_code code] at clean

def loadThenNop : List Token :=
  [⟨1, .opcode, "load"⟩, ⟨1, .register, "r1"⟩, ⟨1, .arrow, "=>"⟩, ⟨2, .register, "r2"⟩,
    ⟨3, .opcode, "nop"⟩]

def annotatedLoadThenNop : List Token :=
  [⟨1, .opcode, "load"⟩, ⟨1, .register, "r1"⟩, ⟨1, .arrow, "=>"⟩, ⟨1, .comment, "// to"⟩,
    ⟨2, .register, "r2"⟩, ⟨3, .opcode, "nop"⟩, ⟨4, .comment, "//"⟩]

/-- The comment before its target costs the load its node. -/
example : (ofTokens annotatedLoadThenNop).nodes = [⟨3, .nop⟩] := by decide +kernel

/-- Both comments are reported, so the annotated tokens cannot be read without reports. -/
theorem comments_around_load :
    Annotates loadThenNop annotatedLoadThenNop ∧
      parse annotatedLoadThenNop = ⟨[⟨1, .access .load "r1" "r2"⟩, ⟨3, .nop⟩], []⟩ ∧
      (ofTokens annotatedLoadThenNop).diagnostics.filter (·.problem = .expectedOpcode .comment) =
        [⟨.number 1, .expectedOpcode .comment⟩, ⟨.number 4, .expectedOpcode .comment⟩] ∧
      (ofTokens annotatedLoadThenNop).nodes.Sublist [⟨1, .access .load "r1" "r2"⟩, ⟨3, .nop⟩] ∧
      (ofTokens annotatedLoadThenNop).diagnostics ≠ [] ∧
      (ofTokens loadThenNop).diagnostics = [] ∧ ofTokens loadThenNop = parse loadThenNop := by
  have annotates : Annotates loadThenNop annotatedLoadThenNop :=
    .token (.token (.token (.comment rfl (.token (.token (.comment rfl .nil))))))
  have read : parse loadThenNop = ⟨[⟨1, .access .load "r1" "r2"⟩, ⟨3, .nop⟩], []⟩ := by decide +kernel
  have passed := comments_are_passed_over_or_reported.1 _ _ annotates
  rw [read] at passed
  obtain ⟨reported, fewer, noisy, -⟩ := comments_are_passed_over_or_reported.2 annotatedLoadThenNop
  obtain ⟨-, -, quiet, same⟩ := comments_are_passed_over_or_reported.2 loadThenNop
  have clean : (ofTokens loadThenNop).diagnostics = [] :=
    quiet.mpr ⟨by decide, congrArg Program.diagnostics read⟩
  refine ⟨annotates, passed, reported, ?_, ?_, clean, same clean⟩
  · rwa [passed] at fewer
  · intro silent
    exact (noisy.mp silent).1 ⟨1, .comment, "// to"⟩ (by decide) rfl

end Iloc
