import Iloc.Proofs.Comments

namespace Iloc

def StartsWhite (cs : List Char) : Prop := ∃ c ∈ cs.head?, IsWhite c

theorem not_startsWhite_nil : ¬ StartsWhite [] := by
  rintro ⟨c, head, -⟩
  cases head

theorem startsWhite_cons {c : Char} {cs : List Char} : StartsWhite (c :: cs) ↔ IsWhite c := by
  simp [StartsWhite]

instance : DecidablePred StartsWhite
  | [] => isFalse not_startsWhite_nil
  | _ :: _ => decidable_of_iff' _ startsWhite_cons

/-- Two texts that have white space in the same places, if not as much or of the same kind. The condition
    on what follows a gap makes the gaps the longest runs of white space. -/
inductive Respaced : List Char → List Char → Prop where
  | nil : Respaced [] []
  | code {c : Char} {cs ds : List Char} : ¬ IsWhite c → Respaced cs ds → Respaced (c :: cs) (c :: ds)
  | gap {left right cs ds : List Char} : left ≠ [] → AllWhite left → right ≠ [] → AllWhite right →
      ¬ StartsWhite cs → ¬ StartsWhite ds → Respaced cs ds → Respaced (left ++ cs) (right ++ ds)

def squeezed : List Char → List Char
  | [] => []
  | c :: cs =>
    if IsWhite c then if StartsWhite cs then squeezed cs else ' ' :: squeezed cs
    else c :: squeezed cs

/-- A text is made of white space, in runs as long as can be, and other characters. -/
theorem run_induction {P : List Char → Prop} (nil : P [])
    (code : ∀ c cs, ¬ IsWhite c → P cs → P (c :: cs))
    (gap : ∀ white cs, white ≠ [] → AllWhite white → ¬ StartsWhite cs → P cs → P (white ++ cs))
    (cs : List Char) : P cs := by
  -- White space may still come before `cs`, and then belongs to the run that `cs` starts with.
  have read : P cs ∧ ∀ white, white ≠ [] → AllWhite white → P (white ++ cs) := by
    induction cs with
    | nil => exact ⟨nil, fun white filled all => gap white [] filled all not_startsWhite_nil nil⟩
    | cons c cs ih =>
      by_cases blank : IsWhite c
      · constructor
        · exact ih.2 [c] (List.cons_ne_nil _ _) (by simpa [AllWhite] using blank)
        · intro white filled all
          rw [List.append_cons]
          apply ih.2 (white ++ [c]) (by simp)
          simpa [AllWhite, or_imp, forall_and] using ⟨all, blank⟩
      · have whole := code c cs blank ih.1
        exact ⟨whole, fun white filled all => gap white _ filled all (mt startsWhite_cons.mp blank) whole⟩
  exact read.1

section Squeezing

variable {c : Char} {cs ds white : List Char}

theorem squeezed_code (code : ¬ IsWhite c) : squeezed (c :: cs) = c :: squeezed cs := by
  rw [squeezed, if_neg code]

theorem squeezed_append_code {text : List Char} (code : ∀ c ∈ text, ¬ IsWhite c) :
    squeezed (text ++ cs) = text ++ squeezed cs := by
  induction text with
  | nil => rfl
  | cons c text ih =>
    rw [List.forall_mem_cons] at code
    rw [List.cons_append, squeezed_code code.1, ih code.2]
    rfl

theorem squeezed_gap (filled : white ≠ []) (all : AllWhite white) (stop : ¬ StartsWhite cs) :
    squeezed (white ++ cs) = ' ' :: squeezed cs := by
  induction white with
  | nil => exact absurd rfl filled
  | cons c white ih =>
    obtain ⟨blank, all⟩ := List.forall_mem_cons.mp all
    rw [List.cons_append, squeezed, if_pos blank]
    cases white with
    | nil => rw [List.nil_append, if_neg stop]
    | cons d white =>
      have more : StartsWhite (d :: white ++ cs) := startsWhite_cons.mpr (all d List.mem_cons_self)
      rw [if_pos more, ih (List.cons_ne_nil _ _) all]

theorem head?_squeezed_of_startsWhite (starts : StartsWhite cs) : (squeezed cs).head? = some ' ' := by
  induction cs with
  | nil => exact absurd starts not_startsWhite_nil
  | cons c cs ih =>
    rw [squeezed, if_pos (startsWhite_cons.mp starts)]
    split
    · rename_i more
      exact ih more
    · rfl

theorem head?_squeezed_of_not_startsWhite (stop : ¬ StartsWhite cs) :
    (squeezed cs).head? = cs.head? := by
  cases cs with
  | nil => rfl
  | cons c cs =>
    rw [squeezed_code (mt startsWhite_cons.mpr stop)]
    rfl

theorem head?_squeezed_eq_some_iff (code : ¬ IsWhite c) :
    (squeezed cs).head? = some c ↔ cs.head? = some c := by
  by_cases starts : StartsWhite cs
  · obtain ⟨d, head, white⟩ := starts
    rw [head?_squeezed_of_startsWhite ⟨d, head, white⟩, Option.mem_def.mp head]
    constructor
    · intro space
      exact absurd (.inl (Option.some.inj space).symm) code
    · intro same
      rw [Option.some.inj same] at white
      exact absurd white code
  · rw [head?_squeezed_of_not_startsWhite starts]

theorem slashes_prefix_iff : ['/', '/'] <+: c :: cs ↔ c = '/' ∧ cs.head? = some '/' := by
  cases cs <;> simp [eq_comm]

theorem slashes_infix_squeezed_iff (cs : List Char) :
    ['/', '/'] <:+: squeezed cs ↔ ['/', '/'] <:+: cs := by
  have slash : ¬ IsWhite '/' := by decide
  have apart : ∀ c rest, IsWhite c → (['/', '/'] <:+: c :: rest ↔ ['/', '/'] <:+: rest) := by
    intro c rest white
    rw [List.infix_cons_iff, slashes_prefix_iff, or_iff_right]
    rintro ⟨rfl, -⟩
    exact slash white
  induction cs with
  | nil => rfl
  | cons c cs ih =>
    rw [squeezed]
    split
    · rename_i white
      rw [apart c cs white]
      split
      · exact ih
      · exact (apart ' ' _ (.inl rfl)).trans ih
    · rw [List.infix_cons_iff, List.infix_cons_iff, slashes_prefix_iff, slashes_prefix_iff,
        head?_squeezed_eq_some_iff slash]
      exact or_congr_right ih

/-- Texts have white space in the same places when they squeeze to the same text. -/
theorem respaced_iff : Respaced cs ds ↔ squeezed cs = squeezed ds := by
  constructor
  · intro respaced
    induction respaced with
    | nil => rfl
    | code code _ ih => rw [squeezed_code code, squeezed_code code, ih]
    | gap filled all filled' all' stop stop' _ ih =>
      rw [squeezed_gap filled all stop, squeezed_gap filled' all' stop', ih]
  · intro same
    induction cs using run_induction generalizing ds with
    | nil =>
      induction ds using run_induction with
      | nil => exact .nil
      | code d ds code _ =>
        rw [squeezed_code code] at same
        cases same
      | gap white ds filled all stop _ =>
        rw [squeezed_gap filled all stop] at same
        cases same
    | code c cs code ih =>
      rw [squeezed_code code] at same
      induction ds using run_induction with
      | nil => cases same
      | code d ds other _ =>
        rw [squeezed_code other] at same
        obtain ⟨rfl, later⟩ := List.cons.inj same
        exact .code code (ih later)
      | gap white ds filled all stop _ =>
        rw [squeezed_gap filled all stop] at same
        exact absurd (.inl (List.cons.inj same).1) code
    | gap white cs filled all stop ih =>
      rw [squeezed_gap filled all stop] at same
      induction ds using run_induction with
      | nil => cases same
      | code d ds code _ =>
        rw [squeezed_code code] at same
        exact absurd (.inl (List.cons.inj same).1.symm) code
      | gap others ds filled' all' stop' _ =>
        rw [squeezed_gap filled' all' stop'] at same
        exact .gap filled all filled' all' stop stop' (ih (List.cons.inj same).2)

end Squeezing

instance (cs ds : List Char) : Decidable (Respaced cs ds) := decidable_of_iff' _ respaced_iff

namespace Segment

theorem Fits.white_or_code {s : Segment} {rest : List Char} (fits : s.Fits rest)
    (plain : ∀ body, s ≠ .comment body) :
    (∃ c, IsWhite c ∧ s = whiteSegment c) ∨ ∀ c ∈ s.text, ¬ IsWhite c := by
  cases s with
  | newline => exact .inl ⟨'\n', .inr (.inr (.inr rfl)), rfl⟩
  | blank c => exact .inl ⟨c, fits.white_of_blank⟩
  | comment body => exact absurd rfl (plain body)
  | arrow => exact .inr (by simp [text, IsWhite])
  | comma => exact .inr (by simp [text, IsWhite])
  | number digits =>
    right
    intro c member white
    have digit := fits.2.1 c member
    rw [white.not_isDigit] at digit
    cases digit
  | word letters =>
    right
    intro c member white
    have letter := fits.2.1 c member
    rw [white.not_isAlphanumeric] at letter
    cases letter
  | stray c =>
    right
    have plain := fits.1
    simp only [List.mem_cons, not_or] at plain
    simp [text, IsWhite, plain]

theorem Fits.squeezed {s : Segment} {rest : List Char} (fits : s.Fits rest)
    (plain : ∀ body, s ≠ .comment body) : s.Fits (Iloc.squeezed rest) := by
  apply fits.of_head
  by_cases starts : StartsWhite rest
  · have space : IsWhite ' ' := .inl rfl
    right
    refine ⟨' ', head?_squeezed_of_startsWhite starts, space.endedBy ?_⟩
    intro body comment
    exact absurd comment (plain body)
  · exact .inl (head?_squeezed_of_not_startsWhite starts)

end Segment

/-- Where a text without comments is squeezed, segments that give no token are left out or replaced. -/
theorem Cut.exists_cut_squeezed {segs : List Segment} {cs : List Char} (cut : Cut segs cs)
    (plain : ∀ s ∈ segs, ∀ body, s ≠ .comment body) :
    ∃ others, Cut others (squeezed cs) ∧
      Scan.ofNumbered (others.map (0, ·)) = Scan.ofNumbered (segs.map (0, ·)) := by
  induction cut with
  | nil => exact ⟨[], .nil, rfl⟩
  | @cons s segs rest fits cut ih =>
    rw [List.forall_mem_cons] at plain
    obtain ⟨others, later, same⟩ := ih plain.2
    rcases fits.white_or_code plain.1 with ⟨c, white, rfl⟩ | code
    · rw [text_whiteSegment, List.singleton_append, List.map_cons, Scan.ofNumbered_cons_white,
        squeezed, if_pos white]
      split
      · exact ⟨others, later, same⟩
      · have space : IsWhite ' ' := .inl rfl
        refine ⟨whiteSegment ' ' :: others, .cons (space.fits _) later, ?_⟩
        rw [List.map_cons, Scan.ofNumbered_cons_white, same]
    · rw [squeezed_append_code code]
      refine ⟨s :: others, .cons (fits.squeezed plain.1) later, ?_⟩
      rw [List.map_cons, List.map_cons, Scan.ofNumbered_cons, Scan.ofNumbered_cons, same]

theorem scan_renumber_const (source : String) :
    (scan source).renumber (fun _ => 0) = .ofNumbered ((segments source.toList).map (0, ·)) := by
  have pieces : (Segment.numbered 1 (segments source.toList)).map (fun piece => (0, piece.2)) =
      (segments source.toList).map (0, ·) := by
    conv_rhs => rw [← Segment.map_snd_numbered 1 (segments source.toList), List.map_map]
    rfl
  have moved := Scan.ofNumbered_renumbered (fun _ => 0) (Segment.numbered 1 (segments source.toList))
  exact moved.symm.trans (congrArg Scan.ofNumbered pieces)

theorem scan_squeezed {source : String} (plain : ¬ ['/', '/'] <:+: source.toList) :
    (scan (.ofList (squeezed source.toList))).renumber (fun _ => 0) =
      (scan source).renumber (fun _ => 0) := by
  have code : ∀ s ∈ segments source.toList, ∀ body, s ≠ .comment body := by
    rintro s member body rfl
    exact comment_notMem_segments plain body member
  obtain ⟨others, cut, same⟩ := (cut_segments source.toList).exists_cut_squeezed code
  rw [scan_renumber_const, scan_renumber_const, String.toList_ofList, ← cut.eq_segments, same]

structure Analysis.MovesLines (a b : Analysis) : Prop where
  tokens : b.scan.tokens.map (fun t => (t.kind, t.lexeme)) =
    a.scan.tokens.map fun t => (t.kind, t.lexeme)
  instructions : b.nodes.map Node.instruction = a.nodes.map Node.instruction
  messages : b.diagnostics.map Diagnostic.message = a.diagnostics.map Diagnostic.message
  ends : b.diagnostics.map (fun d => decide (d.line = .eof)) =
    a.diagnostics.map fun d => decide (d.line = .eof)

/-- The reading of a program does not look at the lines of its tokens. -/
theorem Analysis.movesLines_of_renumber_eq {s r : Scan}
    (same : r.renumber (fun _ => 0) = s.renumber (fun _ => 0)) :
    (Analysis.ofScan s).MovesLines (Analysis.ofScan r) := by
  have tokens : r.tokens.map (Token.renumber fun _ => 0) = s.tokens.map (Token.renumber fun _ => 0) :=
    congrArg Scan.tokens same
  have program : (Program.parse r.tokens).renumber (fun _ => 0) =
      (Program.parse s.tokens).renumber (fun _ => 0) := by
    unfold Program.parse
    rw [← Program.ofTokens_renumbered, ← Program.ofTokens_renumbered,
      ← Token.withoutComments_renumbered, ← Token.withoutComments_renumbered, tokens]
  have nodes : (ofScan r).nodes.map (Node.renumber fun _ => 0) =
      (ofScan s).nodes.map (Node.renumber fun _ => 0) := congrArg Program.nodes program
  have diagnostics : (ofScan r).diagnostics.map (Diagnostic.renumber fun _ => 0) =
      (ofScan s).diagnostics.map (Diagnostic.renumber fun _ => 0) := by
    have scanned := congrArg Scan.diagnostics same
    have read := congrArg Program.diagnostics program
    exact List.map_append.trans ((congrArg₂ (· ++ ·) scanned read).trans List.map_append.symm)
  refine ⟨?_, ?_, ?_, ?_⟩
  · have kept := congrArg (List.map fun t : Token => (t.kind, t.lexeme)) tokens
    rwa [List.map_map, List.map_map] at kept
  · have kept := congrArg (List.map Node.instruction) nodes
    rwa [List.map_map, List.map_map] at kept
  · have kept := congrArg (List.map Diagnostic.message) diagnostics
    rwa [List.map_map, List.map_map] at kept
  · have kept := congrArg (List.map fun d : Diagnostic => decide (d.line = .eof)) diagnostics
    have eof : (fun d : Diagnostic => decide (d.line = .eof)) ∘ Diagnostic.renumber (fun _ => 0) =
        fun d => decide (d.line = .eof) := by
      funext d
      cases line : d.line <;> simp [Diagnostic.renumber, Line.renumber, line]
    rwa [List.map_map, List.map_map, eof] at kept

/-- White space only separates, and a line break is white space: in a text without comments, more of it,
    less of it or another kind of it moves line numbers and changes nothing else. -/
theorem respacing_moves_lines {source other : String} (plain : ¬ ['/', '/'] <:+: source.toList)
    (respaced : Respaced source.toList other.toList) :
    (analyze source).MovesLines (analyze other) := by
  have squeezes := respaced_iff.mp respaced
  have plainOther : ¬ ['/', '/'] <:+: other.toList := by
    rwa [← slashes_infix_squeezed_iff, ← squeezes, slashes_infix_squeezed_iff]
  apply Analysis.movesLines_of_renumber_eq
  calc (scan other).renumber (fun _ => 0)
      = (scan (.ofList (squeezed other.toList))).renumber (fun _ => 0) :=
        (scan_squeezed plainOther).symm
    _ = (scan (.ofList (squeezed source.toList))).renumber (fun _ => 0) := by rw [squeezes]
    _ = (scan source).renumber (fun _ => 0) := scan_squeezed plain

theorem respacing_moves_lines_of_statement :
    (analyze "add r1,\tr2 foo => r3\noutput").MovesLines
      (analyze "add\r\nr1, r2\nfoo\n\n=> r3 output") :=
  respacing_moves_lines (by decide +kernel) (by decide +kernel)

end Iloc
