import Iloc.Proofs.Lexemes
import Iloc.Proofs.Segments

namespace Iloc

theorem Segment.Fits.count_newline {s : Segment} {rest : List Char} (fits : s.Fits rest) :
    s.text.count '\n' = s.lineBreaks := by
  cases s with
  | newline => rfl
  | blank c => rcases fits with rfl | rfl | rfl <;> rfl
  | comment body =>
    have none : body.count '\n' = 0 := List.count_eq_zero.mpr fits.1
    simp [text, lineBreaks, none]
  | arrow => rfl
  | comma => rfl
  | number digits =>
    apply List.count_eq_zero.mpr
    intro member
    exact absurd (fits.2.1 _ member) (by decide)
  | word letters =>
    apply List.count_eq_zero.mpr
    intro member
    exact absurd (fits.2.1 _ member) (by decide)
  | stray c =>
    apply List.count_eq_zero.mpr
    intro member
    obtain rfl := List.mem_singleton.mp member
    exact fits.1 (by decide)

def Diagnostic.shown (d : Diagnostic) : Line × String := (d.line, d.message)

inductive Yields (line : Nat) : Segment → List Token → List (Line × String) → Prop where
  | newline : Yields line .newline [] []
  | blank {c : Char} : Yields line (.blank c) [] []
  | comment {body : List Char} :
      Yields line (.comment body) [⟨line, .comment, String.ofList ('/' :: '/' :: body)⟩] []
  | arrow : Yields line .arrow [⟨line, .arrow, "=>"⟩] []
  | comma : Yields line .comma [⟨line, .comma, ","⟩] []
  | number {digits : List Char} :
      Yields line (.number digits) [⟨line, .constant, String.ofList digits⟩] []
  | opcode {op : Opcode} : Yields line (.word op.name.toList) [⟨line, .opcode, op.name⟩] []
  | register {letters : List Char} : RegisterName letters →
      Yields line (.word letters) [⟨line, .register, String.ofList letters⟩] []
  | invalid {letters : List Char} :
      (∀ op : Opcode, String.ofList letters ≠ op.name) → ¬ RegisterName letters →
      Yields line (.word letters) []
        [(.number line, "Invalid identifier '" ++ String.ofList letters ++ "'")]
  | stray {c : Char} :
      Yields line (.stray c) [] [(.number line, "Unexpected character '" ++ String.singleton c ++ "'")]

theorem exists_yields (line : Nat) (s : Segment) : ∃ tokens remarks, Yields line s tokens remarks := by
  cases s with
  | newline => exact ⟨_, _, .newline⟩
  | blank c => exact ⟨_, _, .blank⟩
  | comment body => exact ⟨_, _, .comment⟩
  | arrow => exact ⟨_, _, .arrow⟩
  | comma => exact ⟨_, _, .comma⟩
  | number digits => exact ⟨_, _, .number⟩
  | word letters =>
    rcases Segment.word_cases letters with ⟨op, rfl⟩ | register | ⟨unnamed, register⟩
    · exact ⟨_, _, .opcode⟩
    · exact ⟨_, _, .register register⟩
    · exact ⟨_, _, .invalid unnamed register⟩
  | stray c => exact ⟨_, _, .stray⟩

theorem Yields.eq {line : Nat} {s : Segment} {tokens : List Token} {remarks : List (Line × String)}
    (yields : Yields line s tokens remarks) :
    tokens = (s.token? line).toList ∧
      remarks = ((s.diagnostic? line).map Diagnostic.shown).toList := by
  cases yields with
  | newline => exact ⟨rfl, rfl⟩
  | blank => exact ⟨rfl, rfl⟩
  | comment => exact ⟨rfl, rfl⟩
  | arrow =>
    have lexeme : String.ofList ['=', '>'] = "=>" := by decide
    simp [Segment.token?, Segment.kind?, Segment.text, lexeme, Segment.diagnostic?, Segment.problem?]
  | comma =>
    have lexeme : String.ofList [','] = "," := by decide
    simp [Segment.token?, Segment.kind?, Segment.text, lexeme, Segment.diagnostic?, Segment.problem?]
  | number => exact ⟨rfl, rfl⟩
  | @opcode op =>
    have kind := Segment.wordKind?_name op
    simp [Segment.token?, Segment.kind?, Segment.text, Segment.diagnostic?, Segment.problem?, kind]
  | @register letters register =>
    have kind := Segment.wordKind?_of_registerName register
    simp [Segment.token?, Segment.kind?, Segment.text, Segment.diagnostic?, Segment.problem?, kind]
  | @invalid letters unnamed register =>
    have kind := Segment.wordKind?_eq_none unnamed register
    have token : (Segment.word letters).token? line = none := by
      rw [Segment.token?, Segment.kind?, kind, Option.map_none]
    have diagnostic : (Segment.word letters).diagnostic? line =
        some ⟨.number line, .invalidIdentifier (String.ofList letters)⟩ := by
      simp [Segment.diagnostic?, Segment.problem?, kind]
    rw [token, diagnostic]
    exact ⟨rfl, rfl⟩
  | stray => exact ⟨rfl, rfl⟩

theorem yields_iff {line : Nat} {s : Segment} {tokens : List Token} {remarks : List (Line × String)} :
    Yields line s tokens remarks ↔
      tokens = (s.token? line).toList ∧
        remarks = ((s.diagnostic? line).map Diagnostic.shown).toList := by
  refine ⟨Yields.eq, ?_⟩
  intro same
  obtain ⟨rfl, rfl⟩ := same
  obtain ⟨tokens, remarks, yields⟩ := exists_yields line s
  obtain ⟨rfl, rfl⟩ := yields.eq
  exact yields

/-- What segments yield one after the other, where `before` is the text read so far. -/
inductive Reading : List Char → List Segment → List Token → List (Line × String) → Prop where
  | nil {before : List Char} : Reading before [] [] []
  | cons {before : List Char} {s : Segment} {segs : List Segment} {ts tokens : List Token}
      {rs remarks : List (Line × String)} :
      Yields (1 + before.count '\n') s ts rs → Reading (before ++ s.text) segs tokens remarks →
      Reading before (s :: segs) (ts ++ tokens) (rs ++ remarks)

theorem Scan.ofNumbered_cons (line : Nat) (s : Segment) (pieces : List (Nat × Segment)) :
    Scan.ofNumbered ((line, s) :: pieces) =
      ⟨(s.token? line).toList ++ (Scan.ofNumbered pieces).tokens,
        (s.diagnostic? line).toList ++ (Scan.ofNumbered pieces).diagnostics⟩ := by
  cases token : s.token? line <;> cases diagnostic : s.diagnostic? line <;>
    simp [Scan.ofNumbered, token, diagnostic]

theorem Cut.reading_iff {segs : List Segment} {cs : List Char} (cut : Cut segs cs)
    {before : List Char} {line : Nat} (count : line = 1 + before.count '\n') {tokens : List Token}
    {remarks : List (Line × String)} :
    Reading before segs tokens remarks ↔
      tokens = (Scan.ofNumbered (Segment.numbered line segs)).tokens ∧
        remarks = (Scan.ofNumbered (Segment.numbered line segs)).diagnostics.map Diagnostic.shown := by
  induction cut generalizing before line tokens remarks with
  | nil =>
    refine ⟨?_, ?_⟩
    · intro reading
      cases reading
      exact ⟨rfl, rfl⟩
    · intro same
      obtain ⟨rfl, rfl⟩ := same
      exact .nil
  | @cons s segs rest fits _ ih =>
    -- The scan counts lines, the relation keeps the text before: a segment moves both alike.
    have next : line + s.lineBreaks = 1 + (before ++ s.text).count '\n' := by
      rw [List.count_append, fits.count_newline, count, Nat.add_assoc]
    rw [Segment.numbered, Scan.ofNumbered_cons]
    subst count
    refine ⟨?_, ?_⟩
    · intro reading
      cases reading with
      | cons yields reading =>
        obtain ⟨rfl, rfl⟩ := yields_iff.mp yields
        obtain ⟨rfl, rfl⟩ := (ih next).mp reading
        refine ⟨rfl, ?_⟩
        rw [List.map_append, Option.toList_map]
    · intro same
      obtain ⟨rfl, rfl⟩ := same
      rw [List.map_append, ← Option.toList_map]
      exact .cons (yields_iff.mpr ⟨rfl, rfl⟩) ((ih next).mpr ⟨rfl, rfl⟩)

def Scans (before cs : List Char) (tokens : List Token) (remarks : List (Line × String)) : Prop :=
  ∃ segs, Cut segs cs ∧ Reading before segs tokens remarks

theorem scans_nil (before : List Char) : Scans before [] [] [] := ⟨[], .nil, .nil⟩

theorem Scans.cons {before rest : List Char} {s : Segment} {ts tokens : List Token}
    {rs remarks : List (Line × String)} (fits : s.Fits rest)
    (yields : Yields (1 + before.count '\n') s ts rs)
    (scans : Scans (before ++ s.text) rest tokens remarks) :
    Scans before (s.text ++ rest) (ts ++ tokens) (rs ++ remarks) := by
  obtain ⟨segs, cut, reading⟩ := scans
  exact ⟨s :: segs, .cons fits cut, .cons yields reading⟩

theorem scans_iff {source : String} {tokens : List Token} {remarks : List (Line × String)} :
    Scans [] source.toList tokens remarks ↔
      tokens = (scan source).tokens ∧
        remarks = (scan source).diagnostics.map Diagnostic.shown := by
  have whole : Reading [] (segments source.toList) tokens remarks ↔
      tokens = (scan source).tokens ∧
        remarks = (scan source).diagnostics.map Diagnostic.shown :=
    (cut_segments source.toList).reading_iff rfl
  refine ⟨?_, ?_⟩
  · intro scans
    obtain ⟨segs, cut, reading⟩ := scans
    rw [cut.eq_segments] at reading
    exact whole.mp reading
  · intro same
    exact ⟨_, cut_segments _, whole.mpr same⟩

theorem scan_eq_clean_iff {source : String} {tokens : List Token} :
    scan source = ⟨tokens, []⟩ ↔ Scans [] source.toList tokens [] := by
  rw [scans_iff]
  refine ⟨?_, ?_⟩
  · intro same
    rw [same]
    exact ⟨rfl, rfl⟩
  · intro same
    obtain ⟨rfl, none⟩ := same
    have none : (scan source).diagnostics = [] := List.map_eq_nil_iff.mp none.symm
    rw [← none]

/-- A scan reads the one and only cut of the whole text into segments that fit. -/
theorem scan_reads_unique_cut (source : String) :
    ∃ segs, segs.flatMap Segment.text = source.toList ∧ (∀ s ∈ segs, s.text ≠ []) ∧
      (∀ cut, Cut cut source.toList ↔ cut = segs) ∧
      ∀ tokens remarks, Reading [] segs tokens remarks ↔
        tokens = (scan source).tokens ∧
          remarks = (scan source).diagnostics.map Diagnostic.shown := by
  have cut := cut_segments source.toList
  refine ⟨segments source.toList, segments_text _, cut.text_ne_nil, fun _ => cut_iff, ?_⟩
  intro tokens remarks
  exact cut.reading_iff rfl

end Iloc
