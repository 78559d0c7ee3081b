import Iloc.Proofs.SourceLayout

namespace Iloc

structure ScannedTokens (low high : Nat) (tokens : List Token) : Prop where
  lexeme : ∀ t ∈ tokens, t.kind.Lexeme t.lexeme
  lower : ∀ t ∈ tokens, low ≤ t.line
  upper : ∀ t ∈ tokens, t.line ≤ high
  ordered : tokens.Pairwise fun t u => t.line ≤ u.line

namespace ScannedTokens

variable {low middle high : Nat} {tokens : List Token}

theorem nil (low high : Nat) : ScannedTokens low high [] := by
  refine ⟨?_, ?_, ?_, .nil⟩
  all_goals
    intro t member
    cases member

theorem weaken (scanned : ScannedTokens middle high tokens) (below : low ≤ middle) :
    ScannedTokens low high tokens := by
  refine ⟨scanned.lexeme, ?_, scanned.upper, scanned.ordered⟩
  intro t member
  exact Nat.le_trans below (scanned.lower t member)

theorem cons (t : Token) (scanned : ScannedTokens t.line high tokens)
    (valid : t.kind.Lexeme t.lexeme) (bound : t.line ≤ high) :
    ScannedTokens t.line high (t :: tokens) := by
  refine ⟨?_, ?_, ?_, .cons scanned.lower scanned.ordered⟩
  · exact List.forall_mem_cons.mpr ⟨valid, scanned.lexeme⟩
  · exact List.forall_mem_cons.mpr ⟨Nat.le_refl _, scanned.lower⟩
  · exact List.forall_mem_cons.mpr ⟨bound, scanned.upper⟩

theorem sublist {some : List Token} (scanned : ScannedTokens low high tokens)
    (sublist : some.Sublist tokens) : ScannedTokens low high some := by
  refine ⟨?_, ?_, ?_, scanned.ordered.sublist sublist⟩
  · intro t member
    exact scanned.lexeme t (sublist.subset member)
  · intro t member
    exact scanned.lower t (sublist.subset member)
  · intro t member
    exact scanned.upper t (sublist.subset member)

end ScannedTokens

theorem Reading.scannedTokens {segs : List Segment} {before cs : List Char} {tokens : List Token}
    {remarks : List (Line × String)} (cut : Cut segs cs)
    (reading : Reading before segs tokens remarks) :
    ScannedTokens (1 + before.count '\n') (1 + (before ++ cs).count '\n') tokens := by
  induction cut generalizing before tokens remarks with
  | nil =>
    cases reading
    exact .nil _ _
  | @cons s segs rest fits cut ih =>
    cases reading with
    | cons yields reading =>
      have later := ih reading
      rw [List.append_assoc] at later
      have below : 1 + before.count '\n' ≤ 1 + (before ++ s.text).count '\n' := by
        rw [List.count_append]
        omega
      have bound : 1 + before.count '\n' ≤ 1 + (before ++ (s.text ++ rest)).count '\n' := by
        rw [List.count_append]
        omega
      rcases yields.kinds fits with ⟨c, -, -, rfl, -⟩ | ⟨kind, lexeme, valid, -, rfl, -⟩ |
        ⟨message, rfl, -⟩
      · exact later.weaken below
      · exact .cons ⟨_, kind, lexeme⟩ (later.weaken below) valid bound
      · exact later.weaken below

theorem scannedTokens_scan (source : String) :
    ScannedTokens 1 (1 + source.toList.count '\n') (scan source).tokens := by
  obtain ⟨segs, cut, reading⟩ := scans_iff.mpr ⟨rfl, rfl⟩
  exact reading.scannedTokens cut

end Iloc
