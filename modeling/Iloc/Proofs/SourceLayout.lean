import Iloc.Proofs.MaximalMunch

namespace Iloc

open Unicode (isAlphabetic isAlphanumeric)

def IsWhite (c : Char) : Prop := c = ' ' ∨ c = '\t' ∨ c = '\r' ∨ c = '\n'

instance : DecidablePred IsWhite := fun c =>
  inferInstanceAs (Decidable (c = ' ' ∨ c = '\t' ∨ c = '\r' ∨ c = '\n'))

def AllWhite (gap : List Char) : Prop := ∀ c ∈ gap, IsWhite c

structure Placed where
  kind : Token.Kind
  lexeme : String
  gap : List Char
  deriving DecidableEq, Repr

namespace Placed

def text (p : Placed) : List Char := p.lexeme.toList ++ p.gap

/-- Which kinds of lexemes may not touch, where `next` is the kind of the lexeme after `p`. A comment
    ends only with its line. -/
structure Apart (p : Placed) (next : Option Token.Kind) : Prop where
  word : (p.kind = .opcode ∨ p.kind = .register) →
    (next = some .opcode ∨ next = some .register ∨ next = some .constant) → p.gap ≠ []
  number : p.kind = .constant → next = some .constant → p.gap ≠ []
  comment : p.kind = .comment → p.gap.head? = some '\n' ∨ p.gap = [] ∧ next = none

def next (placed : List Placed) : Option Token.Kind := placed.head?.map kind

def AllLegal : List Placed → Prop
  | [] => True
  | p :: rest => p.kind.Lexeme p.lexeme ∧ AllWhite p.gap ∧ p.Apart (next rest) ∧ AllLegal rest

def tokens (before : List Char) : List Placed → List Token
  | [] => []
  | p :: rest => ⟨1 + before.count '\n', p.kind, p.lexeme⟩ :: tokens (before ++ p.text) rest

end Placed

structure SourceLayout where
  lead : List Char
  placed : List Placed
  deriving DecidableEq, Repr

namespace SourceLayout

def text (l : SourceLayout) : String := String.ofList (l.lead ++ l.placed.flatMap Placed.text)

def tokens (l : SourceLayout) : List Token := Placed.tokens l.lead l.placed

structure Legal (l : SourceLayout) : Prop where
  lead : AllWhite l.lead
  placed : Placed.AllLegal l.placed

end SourceLayout

theorem IsWhite.not_isAlphanumeric {c : Char} (white : IsWhite c) : isAlphanumeric c = false := by
  rcases white with rfl | rfl | rfl | rfl <;> decide

theorem IsWhite.not_isDigit {c : Char} (white : IsWhite c) : c.isDigit = false := by
  rcases white with rfl | rfl | rfl | rfl <;> decide

theorem IsWhite.endedBy {w : Char} (white : IsWhite w) {s : Segment}
    (comment : ∀ body, s = .comment body → w = '\n') : s.EndedBy w := by
  refine ⟨white.not_isAlphanumeric, ?_, fun _ => ?_, comment⟩
  all_goals rcases white with rfl | rfl | rfl | rfl <;> decide

namespace Token.Kind

structure Opens (kind : Token.Kind) (c : Char) : Prop where
  alphanumeric : isAlphanumeric c = true ↔ kind = .opcode ∨ kind = .register ∨ kind = .constant
  digit : c.isDigit = true ↔ kind = .constant
  letter : kind = .opcode ∨ kind = .register → isAlphabetic c = true
  newline : c ≠ '\n'

theorem opens_of_isAlphabetic {kind : Token.Kind} {c : Char} (word : kind = .opcode ∨ kind = .register)
    (letter : isAlphabetic c = true) : kind.Opens c := by
  have alphanumeric := Unicode.isAlphanumeric_of_isAlphabetic letter
  have digit : ¬ c.isDigit = true := by
    intro digit
    rw [not_isAlphabetic_of_isDigit digit] at letter
    cases letter
  refine ⟨?_, ?_, fun _ => letter, ?_⟩
  · rcases word with rfl | rfl <;> simp [alphanumeric]
  · rcases word with rfl | rfl <;> simp [digit]
  · intro newline
    rw [newline] at letter
    exact absurd letter (by decide)

theorem Lexeme.exists_opens {kind : Token.Kind} {lexeme : String} (valid : kind.Lexeme lexeme) :
    ∃ c cs, lexeme.toList = c :: cs ∧ kind.Opens c := by
  cases kind with
  | opcode =>
    obtain ⟨op, rfl⟩ := valid
    have letters : ∀ op ∈ Opcode.all, op.name.toList.head?.any isAlphabetic = true := by decide
    obtain ⟨c, head, letter⟩ := (Option.any_eq_true _ _).mp (letters op (Opcode.mem_all op))
    obtain ⟨cs, whole⟩ := List.head?_eq_some_iff.mp head
    exact ⟨c, cs, whole, opens_of_isAlphabetic (.inl rfl) letter⟩
  | register =>
    obtain ⟨digits, letters, -⟩ := valid
    exact ⟨'r', digits, letters, opens_of_isAlphabetic (.inr rfl) (by decide)⟩
  | constant =>
    obtain ⟨nonempty, digits⟩ := valid
    obtain ⟨d, ds, whole⟩ := List.exists_cons_of_ne_nil nonempty
    have digit : d.isDigit = true := digits d (whole ▸ List.mem_cons_self)
    refine ⟨d, ds, whole, ?_, ?_, ?_, ?_⟩
    · simp [Unicode.isAlphanumeric_of_isDigit digit]
    · simp [digit]
    · simp
    · intro newline
      rw [newline] at digit
      cases digit
  | comma =>
    obtain rfl := valid
    exact ⟨',', [], rfl, by decide, by decide, by decide, by decide⟩
  | arrow =>
    obtain rfl := valid
    exact ⟨'=', ['>'], rfl, by decide, by decide, by decide, by decide⟩
  | comment =>
    obtain ⟨body, rfl, -⟩ := valid
    exact ⟨'/', '/' :: body, String.toList_ofList, by decide, by decide, by decide, by decide⟩

theorem Lexeme.all_isAlphanumeric {kind : Token.Kind} {lexeme : String} (valid : kind.Lexeme lexeme)
    (word : kind = .opcode ∨ kind = .register) : ∀ c ∈ lexeme.toList, isAlphanumeric c = true := by
  rcases word with rfl | rfl
  · obtain ⟨op, rfl⟩ := valid
    have letters : ∀ op ∈ Opcode.all, op.name.toList.all isAlphanumeric = true := by decide
    exact List.all_eq_true.mp (letters op (Opcode.mem_all op))
  · obtain ⟨digits, letters, -, all⟩ := valid
    rw [letters]
    intro c member
    rcases List.mem_cons.mp member with rfl | member
    · decide
    · exact Unicode.isAlphanumeric_of_isDigit (all c member)

theorem Lexeme.exists_isAlphabetic {kind : Token.Kind} {lexeme : String} (valid : kind.Lexeme lexeme)
    (word : kind = .opcode ∨ kind = .register) :
    ∃ c ∈ lexeme.toList.head?, isAlphabetic c = true := by
  obtain ⟨c, cs, whole, opens⟩ := valid.exists_opens
  refine ⟨c, ?_, opens.letter word⟩
  rw [whole]
  rfl

theorem Lexeme.fits_word_iff {kind : Token.Kind} {lexeme : String} (valid : kind.Lexeme lexeme)
    (word : kind = .opcode ∨ kind = .register) (rest : List Char) :
    (Segment.word lexeme.toList).Fits rest ↔ ∀ c ∈ rest.head?, isAlphanumeric c = false := by
  refine ⟨fun fits => fits.2.2, ?_⟩
  intro stop
  exact ⟨valid.exists_isAlphabetic word, valid.all_isAlphanumeric word, stop⟩

def segment (lexeme : String) : Token.Kind → Segment
  | .opcode => .word lexeme.toList
  | .register => .word lexeme.toList
  | .constant => .number lexeme.toList
  | .comma => .comma
  | .arrow => .arrow
  | .comment => .comment (lexeme.toList.drop 2)

theorem Lexeme.text_segment {kind : Token.Kind} {lexeme : String} (valid : kind.Lexeme lexeme) :
    (kind.segment lexeme).text = lexeme.toList := by
  cases kind with
  | opcode => rfl
  | register => rfl
  | constant => rfl
  | comma =>
    obtain rfl := valid
    rfl
  | arrow =>
    obtain rfl := valid
    rfl
  | comment =>
    obtain ⟨body, rfl, -⟩ := valid
    simp [segment, Segment.text]

theorem Lexeme.yields_segment {kind : Token.Kind} {lexeme : String} (valid : kind.Lexeme lexeme)
    (line : Nat) : Yields line (kind.segment lexeme) [⟨line, kind, lexeme⟩] [] := by
  cases kind with
  | opcode =>
    obtain ⟨op, rfl⟩ := valid
    exact .opcode
  | register =>
    have yields : Yields line (.word lexeme.toList)
        [⟨line, .register, String.ofList lexeme.toList⟩] [] := .register valid
    rwa [String.ofList_toList] at yields
  | constant =>
    have yields : Yields line (.number lexeme.toList)
        [⟨line, .constant, String.ofList lexeme.toList⟩] [] := .number
    rwa [String.ofList_toList] at yields
  | comma =>
    obtain rfl := valid
    exact .comma
  | arrow =>
    obtain rfl := valid
    exact .arrow
  | comment =>
    obtain ⟨body, rfl, -⟩ := valid
    have yields : Yields line (.comment body)
        [⟨line, .comment, String.ofList ('/' :: '/' :: body)⟩] [] := .comment
    simpa [segment] using yields

end Token.Kind

namespace Placed

theorem head_text {gap : List Char} (white : AllWhite gap) {placed : List Placed}
    (legal : AllLegal placed) :
    (gap = [] ∧ placed = [] ∧ (gap ++ placed.flatMap text).head? = none) ∨
    (∃ c, gap.head? = some c ∧ IsWhite c ∧ (gap ++ placed.flatMap text).head? = some c) ∨
    ∃ kind c, gap = [] ∧ next placed = some kind ∧ kind.Opens c ∧
      (gap ++ placed.flatMap text).head? = some c := by
  cases gap with
  | cons c gap => exact .inr (.inl ⟨c, rfl, white c List.mem_cons_self, rfl⟩)
  | nil =>
    cases placed with
    | nil => exact .inl ⟨rfl, rfl, rfl⟩
    | cons p rest =>
      obtain ⟨c, cs, whole, opens⟩ := legal.1.exists_opens
      refine .inr (.inr ⟨p.kind, c, rfl, rfl, opens, ?_⟩)
      simp [text, whole]

section Boundaries

variable {gap : List Char} {placed : List Placed}

theorem stops_iff {p : Char → Bool} {opened : Token.Kind → Prop} (white : AllWhite gap)
    (legal : AllLegal placed) (blank : ∀ c, IsWhite c → p c = false)
    (opens : ∀ kind c, Token.Kind.Opens kind c → (p c = true ↔ opened kind)) :
    (∀ c ∈ (gap ++ placed.flatMap text).head?, p c = false) ↔
      ∀ kind, next placed = some kind → opened kind → gap ≠ [] := by
  rcases head_text white legal with ⟨rfl, rfl, head⟩ | ⟨c, first, isWhite, head⟩ |
    ⟨kind, c, rfl, following, first, head⟩
  · simp [next]
  · have nonempty : gap ≠ [] := List.ne_nil_of_mem (List.mem_of_mem_head? first)
    simp [head, nonempty, blank c isWhite]
  · have closed : p c = false ↔ ¬ opened kind := by
      rw [← opens kind c first, Bool.not_eq_true]
    rw [head, following]
    simpa using closed

theorem stops_word_iff (white : AllWhite gap) (legal : AllLegal placed) :
    (∀ c ∈ (gap ++ placed.flatMap text).head?, isAlphanumeric c = false) ↔
      (next placed = some .opcode ∨ next placed = some .register ∨ next placed = some .constant →
        gap ≠ []) := by
  rw [stops_iff white legal (fun _ => IsWhite.not_isAlphanumeric) fun _ _ opens => opens.alphanumeric]
  refine ⟨?_, ?_⟩
  · intro apart touching
    rcases touching with following | following | following
    · exact apart _ following (.inl rfl)
    · exact apart _ following (.inr (.inl rfl))
    · exact apart _ following (.inr (.inr rfl))
  · intro apart kind following word
    apply apart
    rcases word with rfl | rfl | rfl
    · exact .inl following
    · exact .inr (.inl following)
    · exact .inr (.inr following)

theorem stops_number_iff (white : AllWhite gap) (legal : AllLegal placed) :
    (∀ c ∈ (gap ++ placed.flatMap text).head?, c.isDigit = false) ↔
      (next placed = some .constant → gap ≠ []) := by
  rw [stops_iff white legal (fun _ => IsWhite.not_isDigit) fun _ _ opens => opens.digit]
  refine ⟨fun apart following => apart _ following rfl, ?_⟩
  intro apart kind following constant
  subst constant
  exact apart following

theorem stops_comment_iff (white : AllWhite gap) (legal : AllLegal placed) :
    (∀ c ∈ (gap ++ placed.flatMap text).head?, c = '\n') ↔
      gap.head? = some '\n' ∨ gap = [] ∧ next placed = none := by
  rcases head_text white legal with ⟨rfl, rfl, head⟩ | ⟨c, first, blank, head⟩ |
    ⟨kind, c, rfl, following, opens, head⟩
  · simp [next]
  · have nonempty : gap ≠ [] := List.ne_nil_of_mem (List.mem_of_mem_head? first)
    simp [head, first, nonempty]
  · rw [head, following]
    simp [opens.newline]

end Boundaries

/-- A lexeme is scanned whole and alone exactly if it stands apart from the next one. -/
theorem fits_segment_iff {p : Placed} {rest : List Placed} (valid : p.kind.Lexeme p.lexeme)
    (white : AllWhite p.gap) (legal : AllLegal rest) :
    (p.kind.segment p.lexeme).Fits (p.gap ++ rest.flatMap text) ↔ p.Apart (next rest) := by
  obtain ⟨kind, lexeme, gap⟩ := p
  have word := stops_word_iff white legal
  have number := stops_number_iff white legal
  have comment := stops_comment_iff white legal
  cases kind with
  | opcode =>
    refine (valid.fits_word_iff (.inl rfl) _).trans (word.trans ?_)
    exact ⟨fun apart => ⟨fun _ => apart, by simp, by simp⟩, fun apart => apart.word (.inl rfl)⟩
  | register =>
    refine (valid.fits_word_iff (.inr rfl) _).trans (word.trans ?_)
    exact ⟨fun apart => ⟨fun _ => apart, by simp, by simp⟩, fun apart => apart.word (.inr rfl)⟩
  | constant =>
    refine ⟨?_, ?_⟩
    · intro fits
      exact ⟨by simp, fun _ => number.mp fits.2.2, by simp⟩
    · intro apart
      exact ⟨valid.1, valid.2, number.mpr (apart.number rfl)⟩
  | comma => exact ⟨fun _ => ⟨by simp, by simp, by simp⟩, fun _ => True.intro⟩
  | arrow => exact ⟨fun _ => ⟨by simp, by simp, by simp⟩, fun _ => True.intro⟩
  | comment =>
    obtain ⟨body, rfl, inside⟩ := valid
    have body_eq : (String.ofList ('/' :: '/' :: body)).toList.drop 2 = body := by simp
    refine ⟨?_, ?_⟩
    · intro fits
      exact ⟨by simp, by simp, fun _ => comment.mp fits.2⟩
    · intro apart
      refine ⟨?_, comment.mpr (apart.comment rfl)⟩
      rw [body_eq]
      exact inside

end Placed

def whiteSegment (c : Char) : Segment := if c = '\n' then .newline else .blank c

theorem text_whiteSegment (c : Char) : (whiteSegment c).text = [c] := by
  unfold whiteSegment
  split
  · rename_i newline
    rw [newline]
    rfl
  · rfl

theorem IsWhite.fits {c : Char} (white : IsWhite c) (rest : List Char) : (whiteSegment c).Fits rest := by
  rcases white with rfl | rfl | rfl | rfl <;> simp [whiteSegment, Segment.Fits]

theorem Segment.Fits.white_of_blank {c : Char} {rest : List Char} (fits : (Segment.blank c).Fits rest) :
    IsWhite c ∧ Segment.blank c = whiteSegment c := by
  rcases fits with rfl | rfl | rfl <;> simp [IsWhite, whiteSegment]

theorem yields_whiteSegment (line : Nat) (c : Char) : Yields line (whiteSegment c) [] [] := by
  unfold whiteSegment
  split
  · exact .newline
  · exact .blank

theorem Scans.white {before gap rest : List Char} {tokens : List Token}
    {remarks : List (Line × String)} (white : AllWhite gap)
    (scans : Scans (before ++ gap) rest tokens remarks) :
    Scans before (gap ++ rest) tokens remarks := by
  induction gap generalizing before with
  | nil => simpa using scans
  | cons c gap ih =>
    have later : Scans (before ++ [c]) (gap ++ rest) tokens remarks := by
      apply ih (fun d member => white d (List.mem_cons_of_mem _ member))
      simpa using scans
    rw [← text_whiteSegment c] at later
    have blank : IsWhite c := white c List.mem_cons_self
    have scans := Scans.cons (blank.fits _) (yields_whiteSegment _ c) later
    rw [text_whiteSegment] at scans
    exact scans

theorem Placed.scans {placed : List Placed} (legal : Placed.AllLegal placed) (before : List Char) :
    Scans before (placed.flatMap Placed.text) (Placed.tokens before placed) [] := by
  induction placed generalizing before with
  | nil => exact scans_nil before
  | cons p rest ih =>
    obtain ⟨valid, white, apart, legal⟩ := legal
    have fits := (Placed.fits_segment_iff valid white legal).mpr apart
    have later : Scans (before ++ p.lexeme.toList) (p.gap ++ rest.flatMap Placed.text)
        (Placed.tokens (before ++ p.text) rest) [] := by
      apply Scans.white white
      rw [List.append_assoc]
      exact ih legal (before ++ p.text)
    rw [← valid.text_segment] at later
    have scans := Scans.cons fits (valid.yields_segment _) later
    rw [valid.text_segment, ← List.append_assoc] at scans
    exact scans

theorem Yields.kinds {line : Nat} {s : Segment} {rest : List Char} {tokens : List Token}
    {remarks : List (Line × String)} (fits : s.Fits rest) (yields : Yields line s tokens remarks) :
    (∃ c, IsWhite c ∧ s = whiteSegment c ∧ tokens = [] ∧ remarks = []) ∨
    (∃ kind lexeme, Token.Kind.Lexeme lexeme kind ∧ s = kind.segment lexeme ∧
      tokens = [⟨line, kind, lexeme⟩] ∧ remarks = []) ∨
    ∃ message, tokens = [] ∧ remarks = [(.number line, message)] := by
  cases yields with
  | newline => exact .inl ⟨'\n', .inr (.inr (.inr rfl)), rfl, rfl, rfl⟩
  | @blank c =>
    obtain ⟨white, same⟩ := fits.white_of_blank
    exact .inl ⟨c, white, same, rfl, rfl⟩
  | @comment body =>
    have drop : (String.ofList ('/' :: '/' :: body)).toList.drop 2 = body := by simp
    have same : Segment.comment body = Token.Kind.comment.segment (String.ofList ('/' :: '/' :: body)) :=
      congrArg Segment.comment drop.symm
    exact .inr (.inl ⟨.comment, _, ⟨body, rfl, fits.1⟩, same, rfl, rfl⟩)
  | arrow => exact .inr (.inl ⟨.arrow, _, rfl, rfl, rfl, rfl⟩)
  | comma => exact .inr (.inl ⟨.comma, _, rfl, rfl, rfl, rfl⟩)
  | @number digits =>
    have letters : (String.ofList digits).toList = digits := String.toList_ofList
    have valid : Token.Kind.constant.Lexeme (String.ofList digits) := by
      rw [Token.Kind.Lexeme, letters]
      exact ⟨fits.1, fits.2.1⟩
    exact .inr (.inl ⟨.constant, _, valid, congrArg Segment.number letters.symm, rfl, rfl⟩)
  | @opcode op => exact .inr (.inl ⟨.opcode, _, ⟨op, rfl⟩, rfl, rfl, rfl⟩)
  | @register letters register =>
    have same : (String.ofList letters).toList = letters := String.toList_ofList
    have valid : Token.Kind.register.Lexeme (String.ofList letters) := by
      rw [Token.Kind.Lexeme, same]
      exact register
    exact .inr (.inl ⟨.register, _, valid, congrArg Segment.word same.symm, rfl, rfl⟩)
  | invalid _ _ => exact .inr (.inr ⟨_, rfl, rfl⟩)
  | stray => exact .inr (.inr ⟨_, rfl, rfl⟩)

theorem exists_layout {segs : List Segment} {before cs : List Char} {tokens : List Token}
    {remarks : List (Line × String)} (cut : Cut segs cs)
    (reading : Reading before segs tokens remarks) (clean : remarks = []) :
    ∃ gap placed, AllWhite gap ∧ Placed.AllLegal placed ∧ cs = gap ++ placed.flatMap Placed.text ∧
      tokens = Placed.tokens (before ++ gap) placed := by
  induction cut generalizing before tokens remarks with
  | nil =>
    cases reading
    exact ⟨[], [], by simp [AllWhite], True.intro, rfl, rfl⟩
  | @cons s segs rest fits cut ih =>
    cases reading with
    | @cons _ _ _ ts tokens rs remarks yields reading =>
      obtain ⟨quiet, clean⟩ := List.append_eq_nil_iff.mp clean
      obtain ⟨gap, placed, white, legal, rfl, rfl⟩ := ih reading clean
      rcases yields.kinds fits with ⟨c, blank, rfl, rfl, -⟩ | ⟨kind, lexeme, valid, rfl, rfl, -⟩ |
        ⟨message, -, rfl⟩
      · rw [text_whiteSegment]
        refine ⟨c :: gap, placed, ?_, legal, rfl, by simp⟩
        intro d member
        rcases List.mem_cons.mp member with rfl | member
        · exact blank
        · exact white d member
      -- The white space found so far stands after this lexeme, and none before it yet.
      · let p : Placed := ⟨kind, lexeme, gap⟩
        have apart : p.Apart (Placed.next placed) :=
          (Placed.fits_segment_iff valid white legal).mp fits
        have none : AllWhite [] := by simp [AllWhite]
        refine ⟨[], p :: placed, none, ⟨valid, white, apart, legal⟩, ?_, ?_⟩
        · simp [p, valid.text_segment, Placed.text]
        · simp [p, valid.text_segment, Placed.tokens, Placed.text]
      · cases quiet

theorem SourceLayout.Legal.scan_text {l : SourceLayout} (legal : l.Legal) :
    scan l.text = ⟨l.tokens, []⟩ := by
  rw [scan_eq_clean_iff, text, String.toList_ofList]
  exact Scans.white legal.lead (Placed.scans legal.placed _)

/-- A scan without diagnostics undoes a layout, and there is no other way to scan without diagnostics. -/
theorem scan_eq_clean_iff_layout (source : String) (tokens : List Token) :
    scan source = ⟨tokens, []⟩ ↔
      ∃ l : SourceLayout, l.Legal ∧ l.text = source ∧ l.tokens = tokens := by
  refine ⟨?_, ?_⟩
  · intro scanned
    obtain ⟨segs, cut, reading⟩ := scan_eq_clean_iff.mp scanned
    obtain ⟨gap, placed, white, legal, whole, same⟩ := exists_layout cut reading rfl
    refine ⟨⟨gap, placed⟩, ⟨white, legal⟩, ?_, same.symm⟩
    rw [SourceLayout.text, ← whole, String.ofList_toList]
  · intro laid
    obtain ⟨l, legal, rfl, rfl⟩ := laid
    exact legal.scan_text

end Iloc
