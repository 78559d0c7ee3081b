import Iloc.Proofs.Modes
import Iloc.Proofs.TextFields

namespace Iloc

namespace Token

def Kind.ofName? (name : List Char) : Option Kind :=
  [opcode, register, constant, comma, arrow, comment].find? fun kind => kind.name.toList = name

theorem Kind.ofName?_name (kind : Kind) : ofName? kind.name.toList = some kind := by
  cases kind <;> decide

/-- Reads a token back from its line. The lexeme comes last, so that it can hold spaces. -/
def ofText? (text : String) : Option Token := do
  let (number, rest) := cutAt ' ' text.toList
  let (kind, lexeme) := cutAt ' ' rest
  return ⟨← numeral? number, ← Kind.ofName? kind, String.ofList lexeme⟩

theorem ofText?_text (t : Token) : ofText? t.text = some t := by
  have written : t.text.toList =
      (toString t.line).toList ++ ' ' :: (t.kind.name.toList ++ ' ' :: t.lexeme.toList) := by
    simp [text]
  have number : ' ' ∉ (toString t.line).toList := notMem_toString (by decide) t.line
  have kind : ' ' ∉ t.kind.name.toList := by cases t.kind <;> decide
  simp only [ofText?, written, cutAt_append number, cutAt_append kind, numeral?_toString,
    Kind.ofName?_name, String.ofList_toList, Option.bind_eq_bind, Option.bind_some, Option.pure_def]

end Token

def Line.ofText? (text : List Char) : Option Line :=
  if text = "EOF".toList then some .eof else (numeral? text).map .number

theorem Line.ofText?_text (l : Line) : ofText? l.text.toList = some l := by
  cases l with
  | number n =>
    have other : (toString n).toList ≠ "EOF".toList := by
      intro same
      apply notMem_toString (by decide : 'E'.isDigit = false) n
      rw [same]
      decide
    rw [ofText?, text, if_neg other, numeral?_toString, Option.map_some]
  | eof => rfl

theorem Line.colon_notMem_text (l : Line) : ':' ∉ l.text.toList := by
  cases l with
  | number n => exact notMem_toString (by decide) n
  | eof => decide

namespace Problem

def IsLexical (problem : Problem) : Prop :=
  (∃ word, problem = .invalidIdentifier word) ∨ ∃ c, problem = .unexpectedCharacter c

def ofMessage? (message : List Char) : Option Problem :=
  let (first, rest) := cutAt ' ' message
  let quoted := (cutAt ' ' rest).2.tail.dropLast
  if first = "Invalid".toList then some (.invalidIdentifier (String.ofList quoted))
  else if first = "Unexpected".toList then quoted.head?.map .unexpectedCharacter
  else none

theorem ofMessage?_quoted {first second : List Char} (solid : ' ' ∉ first) (solid' : ' ' ∉ second)
    (quoted : String) :
    ofMessage? (first ++ ' ' :: (second ++ ' ' :: ("'" ++ quoted ++ "'").toList)) =
      if first = "Invalid".toList then some (.invalidIdentifier quoted)
      else if first = "Unexpected".toList then quoted.toList.head?.map .unexpectedCharacter
      else none := by
  have inside : ("'" ++ quoted ++ "'").toList.tail.dropLast = quoted.toList := by simp
  simp only [ofMessage?, cutAt_append solid, cutAt_append solid', inside, String.ofList_toList]

theorem IsLexical.ofMessage?_message {problem : Problem} (lexical : problem.IsLexical) :
    ofMessage? problem.message.toList = some problem := by
  rcases lexical with ⟨word, rfl⟩ | ⟨c, rfl⟩
  · have written : (message (.invalidIdentifier word)).toList =
        "Invalid".toList ++ ' ' :: ("identifier".toList ++ ' ' :: ("'" ++ word ++ "'").toList) := by
      change ("Invalid identifier '" ++ word ++ "'").toList = _
      simp
    rw [written, ofMessage?_quoted (by decide) (by decide), if_pos rfl]
  · have written : (message (.unexpectedCharacter c)).toList =
        "Unexpected".toList ++ ' ' ::
          ("character".toList ++ ' ' :: ("'" ++ String.singleton c ++ "'").toList) := by
      change ("Unexpected character '" ++ String.singleton c ++ "'").toList = _
      simp
    rw [written, ofMessage?_quoted (by decide) (by decide), if_neg (by decide), if_pos rfl,
      String.toList_singleton]
    rfl

end Problem

namespace Diagnostic

theorem toList_text (d : Diagnostic) : d.text.toList =
    heading.toList ++ (d.line.text.toList ++ ':' :: ' ' :: d.message.toList) := by
  have whole : d.text = heading ++ d.line.text ++ ": " ++ d.message := rfl
  simp [whole]

def ofText? (text : String) : Option Diagnostic := do
  let rest ← heading.toList.isPrefixOf? text.toList
  let (line, message) := cutAt ':' rest
  return ⟨← Line.ofText? line, ← Problem.ofMessage? message.tail⟩

theorem ofText?_text {d : Diagnostic} (lexical : d.problem.IsLexical) : ofText? d.text = some d := by
  have after : heading.toList.isPrefixOf? d.text.toList =
      some (d.line.text.toList ++ ':' :: ' ' :: d.message.toList) :=
    List.isPrefixOf?_eq_some_iff_append_eq.mpr d.toList_text.symm
  simp only [ofText?, after, cutAt_append d.line.colon_notMem_text, Line.ofText?_text, List.tail_cons,
    message, lexical.ofMessage?_message, Option.bind_eq_bind, Option.bind_some, Option.pure_def]

theorem ofText?_eq_none {text : String} (plain : text.startsWith heading = false) :
    ofText? text = none := by
  have other : heading.toList.isPrefixOf? text.toList = none := by
    rw [Option.eq_none_iff_forall_ne_some]
    intro rest begins
    rw [String.startsWith_string_eq_false_iff] at plain
    exact plain ⟨rest, List.isPrefixOf?_eq_some_iff_append_eq.mp begins⟩
  rw [ofText?, other]
  rfl

end Diagnostic

theorem Token.ofText?_diagnostic (d : Diagnostic) : ofText? d.text = none := by
  have opening : Diagnostic.heading.toList = "Error".toList ++ ' ' :: "on line ".toList := by decide
  have written : d.text.toList = "Error".toList ++ ' ' ::
      ("on line ".toList ++ (d.line.text.toList ++ ':' :: ' ' :: d.message.toList)) := by
    rw [d.toList_text, opening, List.append_assoc, List.cons_append]
  have first : ' ' ∉ "Error".toList := by decide
  have word : numeral? "Error".toList = none := by decide
  simp only [ofText?, written, cutAt_append first, word, Option.bind_eq_bind, Option.bind_none]

def Scan.ofListing (text : String) : Scan where
  tokens := (linesOf text).filterMap Token.ofText?
  diagnostics := (linesOf text).filterMap Diagnostic.ofText?

theorem Segment.isLexical_of_problem? {s : Segment} {problem : Problem}
    (found : s.problem? = some problem) : problem.IsLexical := by
  cases s with
  | word letters =>
    simp only [problem?] at found
    split at found
    · cases found
    · exact .inl ⟨_, (Option.some.inj found).symm⟩
  | stray c => exact .inr ⟨c, (Option.some.inj found).symm⟩
  | _ => cases found

theorem isLexical_of_mem_scan {source : String} :
    ∀ d ∈ (scan source).diagnostics, d.problem.IsLexical := by
  intro d member
  obtain ⟨⟨line, s⟩, -, found⟩ := List.mem_filterMap.mp member
  have found : s.diagnostic? line = some d := found
  obtain ⟨problem, met, rfl⟩ := Option.map_eq_some_iff.mp found
  exact Segment.isLexical_of_problem? met

theorem filterMap_map_eq_self {α β : Type} {read : β → Option α} {write : α → β} {items : List α}
    (inverse : ∀ item ∈ items, read (write item) = some item) :
    (items.map write).filterMap read = items := by
  rw [List.filterMap_map]
  exact (List.filterMap_congr inverse).trans List.filterMap_some

theorem filterMap_map_eq_nil {α β γ : Type} {read : β → Option γ} {write : α → β} {items : List α}
    (other : ∀ item, read (write item) = none) : (items.map write).filterMap read = [] := by
  rw [List.filterMap_eq_nil_iff]
  exact List.forall_mem_map.mpr fun item _ => other item

theorem Scan.ofListing_report (asTable : Bool) (source : String) :
    ofListing (report .scan asTable source).output = scan source := by
  have tokens : (linesOf (report .scan asTable source).output).filterMap Token.ofText? =
      (scan source).tokens := by
    rw [Report.linesOf_scan, List.filterMap_append, filterMap_map_eq_nil Token.ofText?_diagnostic,
      List.nil_append]
    exact filterMap_map_eq_self fun t _ => t.ofText?_text
  have diagnostics : (linesOf (report .scan asTable source).output).filterMap Diagnostic.ofText? =
      (scan source).diagnostics := by
    have others : ∀ t : Token, Diagnostic.ofText? t.text = none :=
      fun t => Diagnostic.ofText?_eq_none t.startsWith_text
    rw [Report.linesOf_scan, List.filterMap_append, filterMap_map_eq_nil others, List.append_nil]
    exact filterMap_map_eq_self fun d member =>
      Diagnostic.ofText?_text (isLexical_of_mem_scan d member)
  rw [ofListing, tokens, diagnostics]

/-- The listing of a scan can be read back, whatever the source holds, and has a line for each entry. -/
theorem scan_listing_loses_nothing :
    (∀ asTable source, Scan.ofListing (report .scan asTable source).output = scan source) ∧
    (∀ asTable asTable' source other,
      (report .scan asTable source).output = (report .scan asTable' other).output ↔
        scan source = scan other) ∧
    ∀ asTable source, (report .scan asTable source).output.toList.count '\n' =
      (scan source).diagnostics.length + (scan source).tokens.length := by
  refine ⟨Scan.ofListing_report, ?_, ?_⟩
  · intro asTable asTable' source other
    constructor
    · intro same
      rw [← Scan.ofListing_report asTable source, same, Scan.ofListing_report]
    · intro same
      exact congrArg (fun s => (Report.ofScan s).output) same
  · intro asTable source
    have written := count_newline_unlines (Report.unbroken_scan source)
    rw [List.length_append, List.length_map, List.length_map] at written
    exact written

end Iloc
