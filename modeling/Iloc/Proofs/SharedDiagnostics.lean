import Iloc.Proofs.Numbering

namespace Iloc

namespace Scanner

/-- What a segment adds depends on the line alone, and stands after all that was found before. -/
theorem result_take (s : Scanner) (segment : Segment) :
    (s.take segment).result = s.result ++ .ofNumbered [(s.line, segment)] := by
  have added : Scan.ofNumbered [(s.line, segment)] =
      ⟨(segment.token? s.line).toList, (segment.diagnostic? s.line).toList⟩ := by
    rw [Scan.ofNumbered_cons]
    exact Scan.append_empty ⟨_, _⟩
  rw [added]
  rfl

theorem result_run (s : Scanner) (cs : List Char) :
    (s.run cs).result = s.result ++ .ofNumbered (Segment.numbered s.line (segments cs)) := by
  -- Each step hands its line on to the next; what was found before it only stands in front.
  fun_induction run s cs with
  | case1 s =>
    rw [segments]
    exact s.result.append_empty.symm
  | case2 s c cs ih =>
    have parts := Scan.ofNumbered_append [(s.line, (Segment.first c cs).1)]
      (Segment.numbered (s.take (Segment.first c cs).1).line (segments (Segment.first c cs).2))
    rw [ih, result_take, Scan.append_assoc, ← parts, segments]
    rfl

end Scanner

/-- A list that is not empty stays in front of what scanning alone would report. -/
theorem scanInto_eq (collected : List Diagnostic) (source : String) :
    scanInto collected source = ⟨(scan source).tokens, collected ++ (scan source).diagnostics⟩ := by
  rw [scanInto, Scanner.result_run]
  rfl

theorem getElem?_scanAll (collected : List Diagnostic) (sources : List String) (i : Nat) :
    (scanAll collected sources)[i]? = sources[i]?.map fun source =>
      ⟨(scan source).tokens,
        collected ++ (sources.take (i + 1)).flatMap fun earlier => (scan earlier).diagnostics⟩ := by
  induction sources generalizing collected i with
  | nil => rfl
  | cons source rest ih =>
    rw [scanAll, scanInto_eq]
    cases i with
    | zero => simp
    | succ i => simp [ih]

theorem isChain_scanAll (collected : List Diagnostic) (sources : List String) :
    (collected :: (scanAll collected sources).map Scan.diagnostics).IsChain (· <+: ·) := by
  induction sources generalizing collected with
  | nil => exact .singleton collected
  | cons source rest ih =>
    rw [scanAll, List.map_cons]
    have longer : collected <+: (scanInto collected source).diagnostics := by
      rw [scanInto_eq]
      exact List.prefix_append _ _
    exact .cons_cons longer (ih _)

/-- Sources that are scanned into one list give the tokens that each of them gives alone. The list only
    grows: after each source it is what the caller had in it, then what every source so far reports. -/
theorem shared_diagnostics_only_grow (collected : List Diagnostic) (sources : List String) :
    (∀ i, (scanAll collected sources)[i]? = sources[i]?.map fun source =>
      (⟨(scan source).tokens,
        collected ++ (sources.take (i + 1)).flatMap fun earlier => (scan earlier).diagnostics⟩ : Scan)) ∧
    (collected :: (scanAll collected sources).map Scan.diagnostics).IsChain (· <+: ·) :=
  ⟨getElem?_scanAll collected sources, isChain_scanAll collected sources⟩

/-- The second source starts on its own first line, and its report is kept beside the equal ones. -/
example :
    scanAll [⟨.number 1, .unexpectedCharacter '='⟩] ["nop\n=", "= r1"] =
      [⟨[⟨1, .opcode, "nop"⟩],
          [⟨.number 1, .unexpectedCharacter '='⟩, ⟨.number 2, .unexpectedCharacter '='⟩]⟩,
        ⟨[⟨1, .register, "r1"⟩],
          [⟨.number 1, .unexpectedCharacter '='⟩, ⟨.number 2, .unexpectedCharacter '='⟩,
            ⟨.number 1, .unexpectedCharacter '='⟩]⟩] := by
  decide +kernel

end Iloc
