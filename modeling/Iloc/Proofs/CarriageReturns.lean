import Iloc.Proofs.Comments

namespace Iloc

def crlf (source : String) : String :=
  .ofList (source.toList.flatMap fun c => if c = '\n' then ['\r', '\n'] else [c])

/-- Only the first `newlines` lines end with a newline. A comment on one of them takes in the carriage
    return before it. -/
def Token.withReturn (newlines : Nat) (t : Token) : Token :=
  if t.kind = .comment ∧ t.line ≤ newlines then { t with lexeme := t.lexeme ++ "\r" } else t

namespace Token

variable {newlines : Nat}

@[simp]
theorem kind_withReturn (t : Token) : (t.withReturn newlines).kind = t.kind := by
  unfold withReturn
  split <;> rfl

theorem withReturn_of_kind_ne {t : Token} (other : t.kind ≠ .comment) : t.withReturn newlines = t := by
  rw [withReturn, if_neg]
  rintro ⟨comment, -⟩
  exact other comment

theorem map_withReturn_of_code {tokens : List Token} (code : ∀ t ∈ tokens, t.kind ≠ .comment) :
    tokens.map (withReturn newlines) = tokens := by
  rw [List.map_congr_left fun t held => withReturn_of_kind_ne (code t held), List.map_id']

theorem withReturn_of_lt {t : Token} (beyond : newlines < t.line) : t.withReturn newlines = t := by
  rw [withReturn, if_neg]
  rintro ⟨-, within⟩
  omega

theorem withReturn_renumber (newlines : Nat) (t : Token) :
    (t.renumber (· + 1)).withReturn (newlines + 1) = (t.withReturn newlines).renumber (· + 1) := by
  unfold withReturn
  by_cases ended : t.kind = .comment ∧ t.line ≤ newlines
  · rw [if_pos ended, if_pos ⟨ended.1, Nat.succ_le_succ ended.2⟩]
    rfl
  · rw [if_neg ended, if_neg]
    rintro ⟨comment, within⟩
    exact ended ⟨comment, Nat.le_of_succ_le_succ within⟩

theorem withoutComments_withReturn (newlines : Nat) (tokens : List Token) :
    withoutComments (tokens.map (withReturn newlines)) = withoutComments tokens := by
  induction tokens with
  | nil => rfl
  | cons t tokens ih =>
    unfold withoutComments at ih ⊢
    by_cases comment : t.kind = .comment
    · rw [List.map_cons, List.filter_cons_of_neg (by simpa using comment),
        List.filter_cons_of_neg (by simpa using comment), ih]
    · rw [List.map_cons, List.filter_cons_of_pos (by simpa using comment),
        List.filter_cons_of_pos (by simpa using comment), ih, withReturn_of_kind_ne comment]

end Token

theorem cut_append_of_commentOf? {line text : List Char} (found : commentOf? line = some text)
    (more : List Char) :
    codeOf (line ++ more) = codeOf line ∧ commentOf? (line ++ more) = some (text ++ more) := by
  induction line with
  | nil => cases found
  | cons c cs ih =>
    by_cases slashes : ['/', '/'] <+: c :: cs
    · have longer : ['/', '/'] <+: c :: (cs ++ more) := slashes.trans (List.prefix_append (c :: cs) more)
      rw [commentOf?, if_pos slashes] at found
      obtain rfl := Option.some.inj found
      rw [List.cons_append, codeOf, codeOf, commentOf?, if_pos slashes, if_pos longer, if_pos longer]
      exact ⟨rfl, rfl⟩
    · rw [commentOf?, if_neg slashes] at found
      obtain ⟨code, comment⟩ := ih found
      have still : ¬ ['/', '/'] <+: c :: (cs ++ more) := by
        intro starts
        apply slashes
        cases cs with
        | nil => cases found
        | cons d cs => simpa using starts
      rw [List.cons_append, codeOf, codeOf, commentOf?, if_neg slashes, if_neg still, if_neg still, code]
      exact ⟨rfl, comment⟩

section Lines

variable {line : String}

theorem crlf_line (unbroken : Unbroken line) : crlf line = line := by
  have kept : ∀ cs : List Char, '\n' ∉ cs →
      (cs.flatMap fun c => if c = '\n' then ['\r', '\n'] else [c]) = cs := by
    intro cs
    induction cs with
    | nil => intro _; rfl
    | cons c cs ih =>
      intro unbroken
      simp only [List.mem_cons, not_or] at unbroken
      rw [List.flatMap_cons, if_neg (Ne.symm unbroken.1), ih unbroken.2]
      rfl
  rw [crlf, kept _ unbroken, String.ofList_toList]

theorem crlf_append (a b : String) : crlf (a ++ b) = crlf a ++ crlf b := by
  rw [← String.toList_inj]
  simp [crlf]

theorem crlf_line_append (unbroken : Unbroken line) (rest : String) :
    crlf (line ++ "\n" ++ rest) = line ++ "\r" ++ "\n" ++ crlf rest := by
  have newline : crlf "\n" = "\r" ++ "\n" := by decide
  rw [crlf_append, crlf_append, crlf_line unbroken, newline, ← String.append_assoc]

theorem unbroken_append_return (unbroken : Unbroken line) : Unbroken (line ++ "\r") :=
  unbroken_append.mpr ⟨unbroken, by decide⟩

/-- A carriage return at the end of a line is white space, or belongs to the comment there. -/
theorem scan_line_append_return (unbroken : Unbroken line) (newlines : Nat) :
    (scan (line ++ "\r")).tokens = (scan line).tokens.map (Token.withReturn (newlines + 1)) ∧
      (scan (line ++ "\r")).diagnostics = (scan line).diagnostics := by
  cases found : commentOf? line.toList with
  | none =>
    have plain := not_infix_of_commentOf?_eq_none found
    have white : IsWhite '\r' := .inr (.inr (.inl rfl))
    have scanned := scan_append_white line "" white fun body last =>
      absurd (List.mem_of_getLast? last) (comment_notMem_segments plain body)
    have nothing : scan "" = ⟨[], []⟩ := by decide +kernel
    rw [String.append_empty, nothing] at scanned
    rw [Token.map_withReturn_of_code (kind_ne_comment_of_mem_scan plain)]
    constructor
    · exact (congrArg Scan.tokens scanned).trans (List.append_nil _)
    · exact (congrArg Scan.diagnostics scanned).trans (List.append_nil _)
  | some text =>
    have longer := unbroken_append_return unbroken
    obtain ⟨code, comment⟩ := cut_append_of_commentOf? found ['\r']
    obtain ⟨tokens, diagnostics⟩ := scan_line unbroken
    obtain ⟨tokens', diagnostics'⟩ := scan_line longer
    have whole : (line ++ "\r").toList = line.toList ++ ['\r'] := by simp
    have same : codeOnly (line ++ "\r") = codeOnly line := by
      rw [codeOnly_line longer, codeOnly_line unbroken, whole, code]
    have comments : commentTokens (line ++ "\r") =
        (commentTokens line).map (Token.withReturn (newlines + 1)) := by
      rw [commentTokens_line longer, commentTokens_line unbroken, whole, comment, found]
      simp [Token.withReturn, String.ofList_append]
    constructor
    · rw [tokens', same, comments, tokens, List.map_append,
        Token.map_withReturn_of_code (kind_ne_comment_of_mem_code unbroken)]
    · rw [diagnostics', same, diagnostics]

end Lines

theorem scan_crlf (source : String) :
    (scan (crlf source)).tokens =
        (scan source).tokens.map (Token.withReturn (source.toList.count '\n')) ∧
      (scan (crlf source)).diagnostics = (scan source).diagnostics := by
  induction source using line_induction with
  | last line unbroken =>
    have each : ∀ t ∈ (scan line).tokens, t.withReturn 0 = t := by
      intro t held
      apply Token.withReturn_of_lt
      rw [line_of_mem_scan_line unbroken t held]
      exact Nat.zero_lt_one
    rw [crlf_line unbroken, unbroken_iff_count.mp unbroken, List.map_congr_left each, List.map_id']
    exact ⟨rfl, rfl⟩
  | next line rest unbroken ih =>
    have count : (line ++ "\n" ++ rest).toList.count '\n' = rest.toList.count '\n' + 1 := by
      simp [unbroken_iff_count.mp unbroken]
    obtain ⟨tokens, diagnostics⟩ := scan_line_append_return unbroken (rest.toList.count '\n')
    rw [crlf_line_append unbroken, scan_line_append (unbroken_append_return unbroken),
      scan_line_append unbroken, count]
    constructor
    · show _ ++ List.map _ _ = List.map _ (_ ++ List.map _ _)
      rw [tokens, ih.1, List.map_append, List.map_map, List.map_map]
      congr 1
      apply List.map_congr_left
      intro t _
      exact (Token.withReturn_renumber _ t).symm
    · show _ ++ List.map _ _ = _ ++ List.map _ _
      rw [diagnostics, ih.2]

/-- Lines may end with a carriage return and a newline: the analysis is the same, and so are the tokens,
    but for the carriage returns that comments take in. -/
theorem crlf_reads_as_lf (source : String) :
    (scan (crlf source)).tokens =
        (scan source).tokens.map (Token.withReturn (source.toList.count '\n')) ∧
      (scan (crlf source)).diagnostics = (scan source).diagnostics ∧
      (analyze (crlf source)).nodes = (analyze source).nodes ∧
      (analyze (crlf source)).diagnostics = (analyze source).diagnostics := by
  obtain ⟨tokens, diagnostics⟩ := scan_crlf source
  have program : (analyze (crlf source)).program = (analyze source).program := by
    have kept : Token.withoutComments (scan (crlf source)).tokens =
        Token.withoutComments (scan source).tokens := by
      rw [tokens, Token.withoutComments_withReturn]
    exact congrArg Program.ofTokens kept
  refine ⟨tokens, diagnostics, congrArg Program.nodes program, ?_⟩
  exact congrArg₂ (· ++ ·) diagnostics (congrArg Program.diagnostics program)

example : (scan (crlf "nop // one\n=/ r1\r\n// two")).tokens =
    [⟨1, .opcode, "nop"⟩, ⟨1, .comment, "// one\r"⟩, ⟨2, .register, "r1"⟩, ⟨3, .comment, "// two"⟩] := by
  decide +kernel

end Iloc
