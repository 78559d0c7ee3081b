import Iloc.Proofs.SourceLines

namespace Iloc

def codeOf : List Char → List Char
  | [] => []
  | c :: cs => if ['/', '/'] <+: c :: cs then [] else c :: codeOf cs

def commentOf? : List Char → Option (List Char)
  | [] => none
  | c :: cs => if ['/', '/'] <+: c :: cs then some (c :: cs) else commentOf? cs

def codeOnly (source : String) : String :=
  .ofList (['\n'].intercalate ((source.toList.splitOn '\n').map codeOf))

def commentTokens (source : String) : List Token :=
  ((source.toList.splitOn '\n').zipIdx 1).filterMap fun (line, n) =>
    (commentOf? line).map fun text => ⟨n, .comment, .ofList text⟩

theorem codeOf_append_commentOf? (line : List Char) :
    codeOf line ++ (commentOf? line).getD [] = line := by
  fun_induction codeOf line with
  | case1 => rfl
  | case2 c cs slashes => simp [commentOf?, slashes]
  | case3 c cs other ih => simp [commentOf?, other, ih]

theorem codeOf_of_commentOf?_eq_none {line : List Char} (none : commentOf? line = none) :
    codeOf line = line := by
  have whole := codeOf_append_commentOf? line
  rw [none] at whole
  simpa using whole

theorem prefix_of_mem_commentOf? {line text : List Char} (found : commentOf? line = some text) :
    ['/', '/'] <+: text := by
  fun_induction commentOf? line with
  | case1 => cases found
  | case2 c cs slashes =>
    obtain rfl := Option.some.inj found
    exact slashes
  | case3 c cs other ih => exact ih found

theorem prefix_append_slash_codeOf {line text : List Char} (found : commentOf? line = some text) :
    codeOf line ++ ['/'] <+: line := by
  obtain ⟨rest, rfl⟩ := prefix_of_mem_commentOf? found
  have whole := codeOf_append_commentOf? line
  rw [found] at whole
  exact ⟨'/' :: rest, by simpa using whole⟩

/-- The slashes that end the code of a line are the first ones in it. -/
theorem not_infix_codeOf_append {line text : List Char} (found : commentOf? line = some text) :
    ¬ ['/', '/'] <:+: codeOf line ++ ['/'] := by
  induction line with
  | nil => cases found
  | cons c cs ih =>
    by_cases slashes : ['/', '/'] <+: c :: cs
    · rw [codeOf, if_pos slashes]
      decide
    · rw [commentOf?, if_neg slashes] at found
      rw [codeOf, if_neg slashes, List.cons_append, List.infix_cons_iff, not_or]
      constructor
      · intro starts
        apply slashes
        exact starts.trans (List.cons_prefix_cons.mpr ⟨rfl, prefix_append_slash_codeOf found⟩)
      · exact ih found

theorem not_infix_of_commentOf?_eq_none {line : List Char} (none : commentOf? line = none) :
    ¬ ['/', '/'] <:+: line := by
  induction line with
  | nil => decide
  | cons c cs ih =>
    rw [commentOf?] at none
    split at none
    · cases none
    · rename_i slashes
      rw [List.infix_cons_iff, not_or]
      exact ⟨slashes, ih none⟩

theorem not_infix_codeOf (line : List Char) : ¬ ['/', '/'] <:+: codeOf line := by
  cases found : commentOf? line with
  | none =>
    rw [codeOf_of_commentOf?_eq_none found]
    exact not_infix_of_commentOf?_eq_none found
  | some text =>
    intro slashes
    exact not_infix_codeOf_append found (slashes.trans (List.prefix_append _ _).isInfix)

theorem Cut.infix_of_mem {segs : List Segment} {cs : List Char} (cut : Cut segs cs) :
    ∀ s ∈ segs, s.text <:+: cs := by
  induction cut with
  | nil => simp
  | @cons s segs rest fits cut ih =>
    intro r member
    rcases List.mem_cons.mp member with rfl | member
    · exact (List.prefix_append _ _).isInfix
    · exact (ih r member).trans (List.suffix_append _ _).isInfix

theorem comment_notMem_segments {cs : List Char} (plain : ¬ ['/', '/'] <:+: cs) (body : List Char) :
    .comment body ∉ segments cs := by
  intro member
  apply plain
  have starts : ['/', '/'] <+: (Segment.comment body).text := ⟨body, rfl⟩
  exact starts.isInfix.trans ((cut_segments cs).infix_of_mem _ member)

/-- Two slashes end what stands before them, unless a third one stands there. -/
theorem Segment.Fits.append_slashes {s : Segment} {rest : List Char} (fits : s.Fits rest)
    (plain : ¬ ['/', '/'] <:+: s.text ++ rest ++ ['/']) (body : List Char) :
    s.Fits (rest ++ '/' :: '/' :: body) := by
  apply fits.of_head
  cases rest with
  | cons c rest => exact .inl rfl
  | nil =>
    refine .inr ⟨'/', rfl, by decide, by decide, ?_, ?_⟩
    · rintro rfl
      exact absurd (List.infix_refl _) plain
    · rintro text rfl
      apply absurd _ plain
      exact ⟨[], text ++ ['/'], by simp [Segment.text]⟩

theorem Cut.append_comment {segs : List Segment} {cs : List Char} (cut : Cut segs cs)
    (plain : ¬ ['/', '/'] <:+: cs ++ ['/']) {body : List Char} (inside : '\n' ∉ body) :
    Cut (segs ++ [.comment body]) (cs ++ '/' :: '/' :: body) := by
  induction cut with
  | nil =>
    have fits : (Segment.comment body).Fits [] := ⟨inside, by simp⟩
    have cut := Cut.cons fits .nil
    rw [List.append_nil] at cut
    exact cut
  | @cons s segs rest fits cut ih =>
    rw [List.append_assoc s.text rest (_ :: _)]
    refine .cons (fits.append_slashes plain body) (ih ?_)
    intro slashes
    apply plain
    rw [List.append_assoc]
    exact slashes.trans (List.suffix_append _ _).isInfix

theorem Segment.eq_comment_of_kind? {s : Segment} (kind : s.kind? = some .comment) :
    ∃ body, s = .comment body := by
  cases s with
  | comment body => exact ⟨body, rfl⟩
  | word letters =>
    simp only [kind?, wordKind?] at kind
    split at kind
    · cases kind
    · split at kind <;> cases kind
  | _ => cases kind

theorem kind_ne_comment_of_mem_scan {source : String} (plain : ¬ ['/', '/'] <:+: source.toList) :
    ∀ t ∈ (scan source).tokens, t.kind ≠ .comment := by
  intro t member comment
  obtain ⟨⟨line, s⟩, held, found⟩ := List.mem_filterMap.mp member
  obtain ⟨kind, named, rfl⟩ := Option.map_eq_some_iff.mp found
  obtain rfl : kind = .comment := comment
  obtain ⟨body, rfl⟩ := Segment.eq_comment_of_kind? named
  apply comment_notMem_segments plain body
  rw [← Segment.map_snd_numbered 1 (segments source.toList)]
  exact List.mem_map_of_mem held

/-- `s` scans the same as `code`, but for `comments`, each of which comes last on its line. -/
structure Scan.Commented (s code : Scan) (comments : List Token) : Prop where
  diagnostics : s.diagnostics = code.diagnostics
  code : Token.withoutComments s.tokens = code.tokens
  comments : s.tokens.filter (·.kind = .comment) = comments
  last : s.tokens.Pairwise fun t u => t.line ≤ u.line ∧ (t.kind = .comment → t.line < u.line)

namespace Scan.Commented

variable {s code t more : Scan} {comments others : List Token}

theorem append (first : s.Commented code comments) (second : t.Commented more others)
    (before : ∀ a ∈ s.tokens, ∀ b ∈ t.tokens, a.line < b.line) :
    (s ++ t).Commented (code ++ more) (comments ++ others) := by
  refine ⟨?_, ?_, ?_, ?_⟩
  · exact congrArg₂ (· ++ ·) first.diagnostics second.diagnostics
  · exact (Token.withoutComments_append ..).trans (congrArg₂ (· ++ ·) first.code second.code)
  · exact (List.filter_append ..).trans (congrArg₂ (· ++ ·) first.comments second.comments)
  · apply List.pairwise_append.mpr
    refine ⟨first.last, second.last, ?_⟩
    intro a held b later
    have less := before a held b later
    exact ⟨Nat.le_of_lt less, fun _ => less⟩

theorem renumber_add (commented : s.Commented code comments) (k : Nat) :
    (s.renumber (· + k)).Commented (code.renumber (· + k)) (comments.map (Token.renumber (· + k))) := by
  refine ⟨?_, ?_, ?_, ?_⟩
  · exact congrArg (List.map _) commented.diagnostics
  · exact (Token.withoutComments_renumbered ..).trans (congrArg (List.map _) commented.code)
  · exact List.filter_map.trans (congrArg (List.map _) commented.comments)
  · apply List.pairwise_map.mpr
    apply commented.last.imp
    intro a b ordered
    simpa [Token.renumber] using ordered

end Scan.Commented

theorem kind_of_mem_commentTokens (source : String) :
    ∀ t ∈ commentTokens source, t.kind = .comment := by
  intro t member
  obtain ⟨⟨line, n⟩, -, found⟩ := List.mem_filterMap.mp member
  obtain ⟨text, -, rfl⟩ := Option.map_eq_some_iff.mp found
  rfl

section Lines

variable {line : String}

theorem codeOnly_line (unbroken : Unbroken line) : codeOnly line = .ofList (codeOf line.toList) := by
  rw [codeOnly, List.splitOn_eq_singleton unbroken]
  simp

theorem codeOnly_line_append (unbroken : Unbroken line) (rest : String) :
    codeOnly (line ++ "\n" ++ rest) = codeOnly line ++ "\n" ++ codeOnly rest := by
  rw [codeOnly_line unbroken, codeOnly, splitOn_line_append unbroken, ← String.toList_inj]
  simp [codeOnly, List.intercalate_cons_of_ne_nil]

theorem commentTokens_line (unbroken : Unbroken line) :
    commentTokens line =
      ((commentOf? line.toList).map fun text => (⟨1, .comment, .ofList text⟩ : Token)).toList := by
  rw [commentTokens, List.splitOn_eq_singleton unbroken]
  cases found : commentOf? line.toList <;> simp [found]

theorem commentTokens_line_append (unbroken : Unbroken line) (rest : String) :
    commentTokens (line ++ "\n" ++ rest) =
      commentTokens line ++ (commentTokens rest).map (Token.renumber (· + 1)) := by
  rw [commentTokens_line unbroken, commentTokens, splitOn_line_append unbroken, List.zipIdx_cons,
    List.zipIdx_succ, List.filterMap_cons, List.filterMap_map, commentTokens, List.map_filterMap]
  cases found : commentOf? line.toList <;> simp [found, Function.comp_def, Token.renumber]

/-- A line is scanned as its code is, with the comment as one more token. -/
theorem scan_line (unbroken : Unbroken line) :
    (scan line).tokens = (scan (codeOnly line)).tokens ++ commentTokens line ∧
      (scan line).diagnostics = (scan (codeOnly line)).diagnostics := by
  rw [codeOnly_line unbroken, commentTokens_line unbroken]
  have whole := codeOf_append_commentOf? line.toList
  cases found : commentOf? line.toList with
  | none =>
    rw [codeOf_of_commentOf?_eq_none found, String.ofList_toList]
    simp
  | some text =>
    obtain ⟨body, rfl⟩ := prefix_of_mem_commentOf? found
    rw [found] at whole
    have inside : '\n' ∉ codeOf line.toList ∧ '\n' ∉ body := by
      rw [Unbroken, ← whole] at unbroken
      simpa using unbroken
    have cutCode := cut_segments (codeOf line.toList)
    have cut := cutCode.append_comment (not_infix_codeOf_append found) inside.2
    have breaks : (segments (codeOf line.toList)).count .newline = 0 := by
      rw [← cutCode.count_newline]
      exact List.count_eq_zero.mpr inside.1
    have scanned : scan line =
        scan (.ofList (codeOf line.toList)) ++ .ofNumbered [(1, .comment body)] := by
      have parts : segments line.toList = segments (codeOf line.toList) ++ [.comment body] := by
        rw [cut.eq_segments]
        exact congrArg segments whole.symm
      rw [scan, parts, Segment.numbered_append, breaks, Scan.ofNumbered_append, scan,
        String.toList_ofList]
      rfl
    rw [scanned]
    exact ⟨rfl, List.append_nil _⟩

theorem unbroken_codeOnly (unbroken : Unbroken line) : Unbroken (codeOnly line) := by
  rw [codeOnly_line unbroken, Unbroken, String.toList_ofList]
  intro member
  apply unbroken
  rw [← codeOf_append_commentOf? line.toList]
  exact List.mem_append_left _ member

theorem kind_ne_comment_of_mem_code (unbroken : Unbroken line) :
    ∀ t ∈ (scan (codeOnly line)).tokens, t.kind ≠ .comment := by
  apply kind_ne_comment_of_mem_scan
  rw [codeOnly_line unbroken, String.toList_ofList]
  exact not_infix_codeOf line.toList

theorem commented_line (unbroken : Unbroken line) :
    (scan line).Commented (scan (codeOnly line)) (commentTokens line) := by
  obtain ⟨tokens, diagnostics⟩ := scan_line unbroken
  have code := kind_ne_comment_of_mem_code unbroken
  have comments := kind_of_mem_commentTokens line
  refine ⟨diagnostics, ?_, ?_, ?_⟩
  · have kept := Token.withoutComments_of_code code
    have dropped : Token.withoutComments (commentTokens line) = [] :=
      List.filter_eq_nil_iff.mpr (by simpa using comments)
    rw [tokens, Token.withoutComments_append, kept, dropped, List.append_nil]
  · have dropped : (scan (codeOnly line)).tokens.filter (·.kind = .comment) = [] :=
      List.filter_eq_nil_iff.mpr (by simpa using code)
    have kept : (commentTokens line).filter (·.kind = .comment) = commentTokens line :=
      List.filter_eq_self.mpr (by simpa using comments)
    rw [tokens, List.filter_append, kept, dropped, List.nil_append]
  · have same := line_of_mem_scan_line unbroken
    rw [tokens, List.forall_mem_append] at same
    obtain ⟨codeLine, commentLine⟩ := same
    rw [tokens, List.pairwise_append]
    refine ⟨?_, ?_, ?_⟩
    · apply List.pairwise_of_forall_mem_list
      intro t held u later
      exact ⟨by rw [codeLine t held, codeLine u later], fun comment => absurd comment (code t held)⟩
    · rw [commentTokens_line unbroken]
      cases commentOf? line.toList <;> simp
    · intro t held u later
      exact ⟨by rw [codeLine t held, commentLine u later], fun comment => absurd comment (code t held)⟩

end Lines

/-- Where a source has comments, and that the rest of it is scanned as if they were not there. -/
theorem commented_scan (source : String) :
    (scan source).Commented (scan (codeOnly source)) (commentTokens source) := by
  induction source using line_induction with
  | last line unbroken => exact commented_line unbroken
  | next line rest unbroken ih =>
    rw [scan_line_append unbroken, codeOnly_line_append unbroken,
      scan_line_append (unbroken_codeOnly unbroken), commentTokens_line_append unbroken]
    apply (commented_line unbroken).append (ih.renumber_add 1)
    intro a held b later
    obtain ⟨t, member, rfl⟩ := List.mem_map.mp later
    have low := (scannedTokens_scan rest).lower t member
    rw [line_of_mem_scan_line unbroken a held]
    exact Nat.lt_succ_of_le low

/-- Comments run from the first two slashes of a line to its end, and nothing else depends on them. -/
theorem comments_run_to_line_ends (source : String) :
    (scan source).Commented (scan (codeOnly source)) (commentTokens source) ∧
      (analyze source).nodes = (analyze (codeOnly source)).nodes ∧
      (analyze source).diagnostics = (analyze (codeOnly source)).diagnostics := by
  have commented := commented_scan source
  have program : (analyze source).program = (analyze (codeOnly source)).program := by
    have kept : Token.withoutComments (scan source).tokens =
        Token.withoutComments (scan (codeOnly source)).tokens := by
      rw [← commented.code]
      simp [Token.withoutComments]
    exact congrArg Program.ofTokens kept
  refine ⟨commented, congrArg Program.nodes program, ?_⟩
  exact congrArg₂ (· ++ ·) commented.diagnostics (congrArg Program.diagnostics program)

example : commentTokens "nop // one\n=/ r1\r\n///\r" =
    [⟨1, .comment, "// one"⟩, ⟨3, .comment, "///\r"⟩] := by
  decide +kernel

end Iloc
