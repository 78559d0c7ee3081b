import Iloc.Proofs.Grammar
import Iloc.Proofs.Numbering

namespace Iloc

/-- The line that line `n` of a text becomes when `a` and a newline are put in front of the text. -/
def lineAfter (a : String) (n : Nat) : Nat := n + (1 + a.toList.count '\n')

theorem Token.withoutComments_renumbered (g : Nat → Nat) (tokens : List Token) :
    withoutComments (tokens.map (renumber g)) = (withoutComments tokens).map (renumber g) := by
  rw [withoutComments, withoutComments, List.filter_map]
  rfl

theorem scan_append_newline (a b : String) :
    scan (a ++ "\n" ++ b) = scan a ++ (scan b).renumber (lineAfter a) := by
  have white : IsWhite '\n' := .inr (.inr (.inr rfl))
  have count : (a.toList ++ ['\n']).count '\n' = 1 + a.toList.count '\n' := by
    rw [List.count_append, List.count_singleton_self, Nat.add_comm]
  have scanned := scan_append_white a b white fun _ _ => rfl
  rw [count] at scanned
  exact scanned

open Program (ofTokens parse)

theorem parse_append_newline (a b : String) :
    parse (scan (a ++ "\n" ++ b)).tokens =
      ofTokens (Token.withoutComments (scan a).tokens ++
        (Token.withoutComments (scan b).tokens).map (Token.renumber (lineAfter a))) := by
  have tokens : (scan (a ++ "\n" ++ b)).tokens =
      (scan a).tokens ++ (scan b).tokens.map (Token.renumber (lineAfter a)) :=
    congrArg Scan.tokens (scan_append_newline a b)
  rw [parse, tokens, Token.withoutComments_append, Token.withoutComments_renumbered]

/-- After a program without diagnostics, a text reads as it does alone, some lines further down. -/
theorem parse_after_clean {a : String} (clean : (analyze a).diagnostics = []) (b : String) :
    parse (scan (a ++ "\n" ++ b)).tokens =
      ⟨(analyze a).nodes, []⟩ ++ (analyze b).program.renumber (lineAfter a) := by
  obtain ⟨-, parsed⟩ := (diagnostics_analyze_eq_nil_iff a).mp clean
  obtain ⟨nodes, pieces, derivation⟩ := Program.exists_derivation parsed
  have read : (analyze a).nodes = nodes := congrArg Program.nodes derivation.ofTokens_eq
  rw [parse_append_newline, derivation.ofTokens_append, Program.ofTokens_renumbered, read]
  rfl

/-- Before an opcode it does not matter how a text breaks off, but for the line where that is reported. -/
theorem parse_before_opcode (a : String) {b : String} {t : Token} {rest : List Token}
    (first : Token.withoutComments (scan b).tokens = t :: rest) (opcode : t.kind = .opcode) :
    parse (scan (a ++ "\n" ++ b)).tokens =
      (analyze a).program.endingAt (.number (lineAfter a t.line)) ++
        (analyze b).program.renumber (lineAfter a) := by
  have opens : ∀ u ∈ ((t :: rest).map (Token.renumber (lineAfter a))).head?, u.kind = .opcode := by
    simpa [Token.renumber] using opcode
  have read : (analyze b).program = ofTokens (t :: rest) := by
    rw [← first]
    rfl
  rw [parse_append_newline, first, Program.ofTokens_append opens, Program.ofTokens_renumbered, ← read]
  rfl

theorem diagnostics_append_newline (a b : String) :
    (analyze (a ++ "\n" ++ b)).diagnostics =
      (scan a).diagnostics ++ (scan b).diagnostics.map (Diagnostic.renumber (lineAfter a)) ++
        (parse (scan (a ++ "\n" ++ b)).tokens).diagnostics :=
  congrArg (· ++ _) (congrArg Scan.diagnostics (scan_append_newline a b))

/-- Two texts joined by a newline are analyzed as each of them alone, with the lines of the second one
    counted on. Either the first text has no diagnostics, or the second one starts with an opcode: then
    the first may break off anywhere, and that is reported on the line of the opcode. -/
theorem analyses_concatenate (a b : String) :
    ((analyze a).diagnostics = [] →
      (analyze (a ++ "\n" ++ b)).nodes =
        (analyze a).nodes ++ (analyze b).nodes.map (Node.renumber (lineAfter a)) ∧
      (analyze (a ++ "\n" ++ b)).diagnostics =
        (analyze b).diagnostics.map (Diagnostic.renumber (lineAfter a))) ∧
    ∀ t rest, Token.withoutComments (scan b).tokens = t :: rest → t.kind = .opcode →
      (analyze (a ++ "\n" ++ b)).nodes =
        (analyze a).nodes ++ (analyze b).nodes.map (Node.renumber (lineAfter a)) ∧
      (analyze (a ++ "\n" ++ b)).diagnostics =
        (analyze a).scan.diagnostics ++
          (analyze b).scan.diagnostics.map (Diagnostic.renumber (lineAfter a)) ++
          ((analyze a).program.diagnostics.map
              (Diagnostic.endingAt (.number (lineAfter a t.line))) ++
            (analyze b).program.diagnostics.map (Diagnostic.renumber (lineAfter a))) := by
  refine ⟨?_, ?_⟩
  · intro clean
    have parsed := parse_after_clean clean b
    have scanned : (scan a).diagnostics = [] := ((diagnostics_analyze_eq_nil_iff a).mp clean).1
    refine ⟨congrArg Program.nodes parsed, ?_⟩
    rw [diagnostics_append_newline, parsed, scanned, List.nil_append, Analysis.diagnostics,
      List.map_append]
    rfl
  · intro t rest first opcode
    have parsed := parse_before_opcode a first opcode
    refine ⟨congrArg Program.nodes parsed, ?_⟩
    rw [diagnostics_append_newline, parsed]
    rfl

/-- After `nop` a stray arrow is reported a line further down; before `nop` an instruction that breaks off
    is reported on the line of the `nop`, after the characters that are stray in either text. -/
theorem analyses_around_nop :
    ((analyze "nop").diagnostics = [] ∧
      (analyze ("nop" ++ "\n" ++ "=> ?")).nodes = [⟨1, .nop⟩] ∧
      (analyze ("nop" ++ "\n" ++ "=> ?")).diagnostics =
        [⟨.number 2, .unexpectedCharacter '?'⟩, ⟨.number 2, .expectedOpcode .arrow⟩]) ∧
    Token.withoutComments (scan "// next\nnop ?").tokens = [⟨2, .opcode, "nop"⟩] ∧
      (analyze ("store r1 = " ++ "\n" ++ "// next\nnop ?")).nodes = [⟨3, .nop⟩] ∧
      (analyze ("store r1 = " ++ "\n" ++ "// next\nnop ?")).diagnostics =
        [⟨.number 1, .unexpectedCharacter '='⟩, ⟨.number 3, .unexpectedCharacter '?'⟩,
          ⟨.number 3, .unfilled .arrow⟩, ⟨.number 3, .unfilled .destination⟩] := by
  have clean : (analyze "nop").diagnostics = [] := by decide +kernel
  have first : Token.withoutComments (scan "// next\nnop ?").tokens = [⟨2, .opcode, "nop"⟩] := by
    decide +kernel
  have nop : analyze "nop" = ⟨⟨[⟨1, .opcode, "nop"⟩], []⟩, ⟨[⟨1, .nop⟩], []⟩⟩ := by decide +kernel
  have arrow : analyze "=> ?" = ⟨⟨[⟨1, .arrow, "=>"⟩], [⟨.number 1, .unexpectedCharacter '?'⟩]⟩,
      ⟨[], [⟨.number 1, .expectedOpcode .arrow⟩]⟩⟩ := by
    decide +kernel
  have store : analyze "store r1 = " =
      ⟨⟨[⟨1, .opcode, "store"⟩, ⟨1, .register, "r1"⟩], [⟨.number 1, .unexpectedCharacter '='⟩]⟩,
        ⟨[], [⟨.eof, .unfilled .arrow⟩, ⟨.eof, .unfilled .destination⟩]⟩⟩ := by
    decide +kernel
  have next : analyze "// next\nnop ?" =
      ⟨⟨[⟨1, .comment, "// next"⟩, ⟨2, .opcode, "nop"⟩], [⟨.number 2, .unexpectedCharacter '?'⟩]⟩,
        ⟨[⟨2, .nop⟩], []⟩⟩ := by
    decide +kernel
  have after := (analyses_concatenate "nop" "=> ?").1 clean
  have before := (analyses_concatenate "store r1 = " "// next\nnop ?").2 _ _ first rfl
  rw [nop, arrow] at after
  rw [store, next] at before
  exact ⟨⟨clean, after⟩, first, before⟩

end Iloc
