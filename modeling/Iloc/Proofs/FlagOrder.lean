import Iloc.Proofs.Verbosity
import Mathlib.Data.List.Nodup

namespace Iloc.CommandLine

def choiceLetters : List Char := ['s', 'p', 'r', 't', 'v']

def IsChoice (argument : String) : Prop :=
  argument = "--table" ∨
    ∃ letters, letters ≠ [] ∧ letters ⊆ choiceLetters ∧ argument = .ofList ('-' :: letters)

def lettersOf (argument : String) : List Char :=
  if argument = "--table" then ['t']
  else
    match argument.toList with
    | '-' :: letters => letters
    | _ => []

def letters (arguments : List String) : List Char := arguments.flatMap lettersOf

structure Chooses (arguments : List String) (input : String) : Prop where
  parts : ∃ before after, arguments = before ++ input :: after ∧
    ∀ argument ∈ before ++ after, IsChoice argument
  plain : input.toList.head? ≠ some '-'

namespace Flag

def letter : Flag → Char
  | .scan => 's'
  | .parse => 'p'
  | .ir => 'r'
  | .table => 't'
  | .verbose => 'v'
  | .help => 'h'
  | .version => 'V'

theorem ofLetter?_eq_some_iff {c : Char} {f : Flag} : ofLetter? c = some f ↔ c = f.letter := by
  constructor
  · intro found
    unfold ofLetter? at found
    split at found <;> cases found <;> rfl
  · rintro rfl
    cases f <;> rfl

theorem mem_filterMap_ofLetter? {letters : List Char} {f : Flag} :
    f ∈ letters.filterMap ofLetter? ↔ f.letter ∈ letters := by
  simp [List.mem_filterMap, ofLetter?_eq_some_iff]

theorem count_filterMap_ofLetter? (letters : List Char) (f : Flag) :
    (letters.filterMap ofLetter?).count f = letters.count f.letter := by
  rw [List.count_filterMap, List.count]
  apply List.countP_congr
  intro c _
  rw [beq_iff_eq, beq_iff_eq, ofLetter?_eq_some_iff]

end Flag

theorem ofLetter_of_choice {c : Char} (choice : c ∈ choiceLetters) :
    ∃ f, Flag.ofLetter? c = some f ∧ f ≠ .help ∧ f ≠ .version := by
  simp only [choiceLetters, List.mem_cons, List.not_mem_nil, or_false] at choice
  rcases choice with rfl | rfl | rfl | rfl | rfl
  · exact ⟨.scan, rfl, by decide, by decide⟩
  · exact ⟨.parse, rfl, by decide, by decide⟩
  · exact ⟨.ir, rfl, by decide, by decide⟩
  · exact ⟨.table, rfl, by decide, by decide⟩
  · exact ⟨.verbose, rfl, by decide, by decide⟩

/-- Letters of choices are read as flags, and none of these ends the reading. -/
theorem map_ofLetter {letters : List Char} (choices : letters ⊆ choiceLetters) :
    letters.map Item.ofLetter = (letters.filterMap Flag.ofLetter?).map .flag := by
  induction letters with
  | nil => rfl
  | cons c letters ih =>
    obtain ⟨first, choices⟩ := List.cons_subset.mp choices
    obtain ⟨f, found, -⟩ := ofLetter_of_choice first
    have item : Item.ofLetter c = .flag f := by rw [Item.ofLetter, found]
    rw [List.map_cons, item, ih choices, List.filterMap_cons_some found, List.map_cons]

/-- A second dash is no letter of a choice. -/
theorem cluster_ne_long {letters : List Char} (choices : letters ⊆ choiceLetters) (rest : List Char) :
    '-' :: letters ≠ '-' :: '-' :: rest := by
  intro same
  rw [(List.cons.inj same).2] at choices
  exact absurd (choices List.mem_cons_self) (by decide)

theorem lettersOf_cluster {letters : List Char} (choices : letters ⊆ choiceLetters) :
    lettersOf (.ofList ('-' :: letters)) = letters := by
  have other : String.ofList ('-' :: letters) ≠ "--table" := by
    intro same
    have text := congrArg String.toList same
    rw [String.toList_ofList] at text
    exact cluster_ne_long choices "table".toList text
  rw [lettersOf, if_neg other, String.toList_ofList]
  rfl

namespace IsChoice

variable {argument : String}

theorem lettersOf_subset (choice : IsChoice argument) : lettersOf argument ⊆ choiceLetters := by
  rcases choice with rfl | ⟨letters, -, choices, rfl⟩
  · decide
  · rw [lettersOf_cluster choices]
    exact choices

theorem ne_dashes (choice : IsChoice argument) : argument ≠ "--" := by
  rcases choice with rfl | ⟨letters, -, choices, rfl⟩
  · decide
  · intro same
    have text := congrArg String.toList same
    rw [String.toList_ofList] at text
    exact cluster_ne_long choices [] text

theorem ofArgument_eq (choice : IsChoice argument) :
    Item.ofArgument argument = ((lettersOf argument).filterMap Flag.ofLetter?).map .flag := by
  rw [← map_ofLetter choice.lettersOf_subset]
  rcases choice with rfl | ⟨letters, nonempty, choices, rfl⟩
  · decide
  · rw [lettersOf_cluster choices]
    cases letters with
    | nil => exact absurd rfl nonempty
    | cons c letters =>
      unfold Item.ofArgument
      rw [String.toList_ofList]
      split
      · rename_i text
        exact absurd text (cluster_ne_long choices _)
      · rename_i text
        obtain ⟨rfl, rfl⟩ := List.cons.inj (List.cons.inj text).2
        rfl
      · rename_i noLetters
        exact absurd rfl (noLetters c letters)

end IsChoice

theorem letters_append (left right : List String) :
    letters (left ++ right) = letters left ++ letters right := List.flatMap_append

theorem ofArguments_choices {arguments : List String}
    (choices : ∀ argument ∈ arguments, IsChoice argument) (rest : List String) :
    Item.ofArguments (arguments ++ rest) =
      ((letters arguments).filterMap Flag.ofLetter?).map .flag ++ Item.ofArguments rest := by
  induction arguments with
  | nil => rfl
  | cons argument arguments ih =>
    obtain ⟨first, choices⟩ := List.forall_mem_cons.mp choices
    have parts : letters (argument :: arguments) = lettersOf argument ++ letters arguments := rfl
    rw [List.cons_append, Item.ofArguments, if_neg first.ne_dashes, first.ofArgument_eq, ih choices,
      parts, List.filterMap_append, List.map_append, List.append_assoc]

theorem ofArguments_operand {input : String} (plain : input.toList.head? ≠ some '-')
    (rest : List String) :
    Item.ofArguments (input :: rest) = .operand input :: Item.ofArguments rest := by
  have other : input ≠ "--" := by
    rintro rfl
    exact plain (by decide)
  have operand : Item.ofArgument input = [.operand input] := by
    unfold Item.ofArgument
    split
    · rename_i text
      exact absurd (by rw [text]; rfl) plain
    · rename_i text
      exact absurd (by rw [text]; rfl) plain
    · rfl
  rw [Item.ofArguments, if_neg other, operand]
  rfl

theorem lettersOf_input {input : String} (plain : input.toList.head? ≠ some '-') :
    lettersOf input = [] := by
  have other : input ≠ "--table" := by
    rintro rfl
    exact plain (by decide)
  rw [lettersOf, if_neg other]
  split
  · rename_i text
    exact absurd (by rw [text]; rfl) plain
  · rfl

theorem flags_later {arguments : List String} (choices : ∀ argument ∈ arguments, IsChoice argument) :
    ∀ f ∈ (letters arguments).filterMap Flag.ofLetter?, f ≠ .help ∧ f ≠ .version := by
  intro f member
  obtain ⟨c, inside, found⟩ := List.mem_filterMap.mp member
  obtain ⟨argument, given, inside⟩ := List.mem_flatMap.mp inside
  obtain ⟨f', found', later⟩ := ofLetter_of_choice ((choices argument given).lettersOf_subset inside)
  obtain rfl := Option.some.inj (found.symm.trans found')
  exact later

/-- On the way through the arguments the flags are gathered, and the input is found between them. -/
theorem Chooses.ofArguments_eq {arguments : List String} {input : String}
    (chooses : Chooses arguments input) :
    Invocation.ofArguments arguments =
      Gathered.finish ⟨(letters arguments).filterMap Flag.ofLetter?, some input⟩ := by
  obtain ⟨before, after, rfl, choices⟩ := chooses.parts
  obtain ⟨choicesBefore, choicesAfter⟩ := List.forall_mem_append.mp choices
  have items : Item.ofArguments after =
      ((letters after).filterMap Flag.ofLetter?).map .flag ++ [] := by
    have read := ofArguments_choices choicesAfter []
    rw [List.append_nil] at read
    exact read
  have all : letters (before ++ input :: after) = letters before ++ letters after := by
    have parts : letters (input :: after) = lettersOf input ++ letters after := rfl
    rw [letters_append, parts, lettersOf_input chooses.plain, List.nil_append]
  rw [Invocation.ofArguments, ofArguments_choices choicesBefore, ofArguments_operand chooses.plain,
    Invocation.ofItems_flags _ (flags_later choicesBefore), Invocation.ofItems, items,
    Invocation.ofItems_flags _ (flags_later choicesAfter), Invocation.ofItems, all,
    List.filterMap_append]
  rfl

def modeOf (letters : List Char) : Mode :=
  if 'r' ∈ letters then .ir else if 'p' ∈ letters ∨ 's' ∉ letters then .parse else .scan

def settingsOf (letters : List Char) (input : String) : Settings where
  verbosity := .ofCount (letters.count 'v')
  mode := modeOf letters
  table := decide ('t' ∈ letters)
  input := input

theorem settingsOf_perm {letters others : List Char} (same : letters.Perm others) (input : String) :
    settingsOf letters input = settingsOf others input := by
  simp only [settingsOf, modeOf, same.mem_iff, same.count_eq]

theorem mode_gathered (letters : List Char) (input : Option String) :
    Gathered.mode ⟨letters.filterMap Flag.ofLetter?, input⟩ = modeOf letters := by
  simp only [Gathered.mode, modeOf, Flag.mem_filterMap_ofLetter?, Flag.letter]
  -- Parsing is what is left if no mode is asked for, so the two orders of asking agree.
  by_cases parse : 'p' ∈ letters <;> by_cases scan : 's' ∈ letters <;> simp [parse, scan]

theorem finish_of_once {letters : List Char} (once : (letters.filter (· ≠ 'v')).Nodup) (input : String) :
    Gathered.finish ⟨letters.filterMap Flag.ofLetter?, some input⟩ =
      .session (settingsOf letters input) := by
  have single : Gathered.repeated? ⟨letters.filterMap Flag.ofLetter?, some input⟩ = none := by
    have other : ∀ f ∈ [Flag.scan, .parse, .ir, .table], f.letter ≠ 'v' := by decide
    rw [Gathered.repeated?, List.find?_eq_none]
    intro f member
    have count := List.nodup_iff_count_le_one.mp once f.letter
    rw [List.count_filter (p := fun c => decide (c ≠ 'v')) (decide_eq_true (other f member))] at count
    rw [Flag.count_filterMap_ofLetter?, decide_eq_true_eq, Nat.not_lt]
    exact count
  have settings : Gathered.settings ⟨letters.filterMap Flag.ofLetter?, some input⟩ input =
      settingsOf letters input := by
    simp only [Gathered.settings, settingsOf, mode_gathered, Flag.mem_filterMap_ofLetter?,
      Flag.count_filterMap_ofLetter?, Flag.letter]
  rw [Gathered.finish, single, ← settings]

theorem session_of_chooses {arguments : List String} {input : String}
    (chooses : Chooses arguments input)
    (once : ((letters arguments).filter (· ≠ 'v')).Nodup) (directory : Directory) :
    session arguments directory =
      .ofSession (settingsOf (letters arguments) input) (directory.read input) := by
  rw [session, chooses.ofArguments_eq, finish_of_once once]
  rfl

/-- Only which letters are there counts, and how often `v` is: not their order, nor how they are grouped,
    nor where the input stands. The most thorough of the modes is run on the text of the input. -/
theorem letters_decide_session {arguments : List String} {input : String}
    (chooses : Chooses arguments input)
    (once : ((letters arguments).filter (· ≠ 'v')).Nodup) :
    (∀ others, Chooses others input → (letters others).Perm (letters arguments) →
      ∀ directory, session others directory = session arguments directory) ∧
    ∀ (directory : Directory) (source : String), directory.read input = .ok source →
      let shown := report (modeOf (letters arguments)) (decide ('t' ∈ letters arguments)) source
      (session arguments directory).output = shown.output ∧
        (session arguments directory).status = if shown.accepted then 0 else 1 := by
  refine ⟨?_, ?_⟩
  · intro others chooses' same directory
    have once' : ((letters others).filter (· ≠ 'v')).Nodup := (same.filter _).nodup_iff.mpr once
    rw [session_of_chooses chooses once, session_of_chooses chooses' once', settingsOf_perm same]
  · intro directory source readable
    rw [session_of_chooses chooses once, readable]
    exact ⟨rfl, rfl⟩

theorem letters_decide_session_vsrt :
    Chooses ["-vs", "a.iloc", "--table", "-rv"] "a.iloc" ∧
    ((letters ["-vs", "a.iloc", "--table", "-rv"]).filter (· ≠ 'v')).Nodup ∧
    session ["-tsrvv", "a.iloc"] [("a.iloc", .file "nop".toUTF8)] =
      session ["-vs", "a.iloc", "--table", "-rv"] [("a.iloc", .file "nop".toUTF8)] ∧
    (session ["-vs", "a.iloc", "--table", "-rv"] [("a.iloc", .file "nop".toUTF8)]).output =
      "1: nop   \n" := by
  have apart : Chooses ["-vs", "a.iloc", "--table", "-rv"] "a.iloc" := by
    refine ⟨⟨["-vs"], ["--table", "-rv"], rfl, ?_⟩, by decide⟩
    have vs : IsChoice "-vs" := .inr ⟨['v', 's'], by decide, by decide, by decide⟩
    have rv : IsChoice "-rv" := .inr ⟨['r', 'v'], by decide, by decide, by decide⟩
    simp only [List.cons_append, List.nil_append, List.forall_mem_cons]
    exact ⟨vs, .inl rfl, rv, by simp⟩
  have together : Chooses ["-tsrvv", "a.iloc"] "a.iloc" := by
    refine ⟨⟨["-tsrvv"], [], rfl, ?_⟩, by decide⟩
    rw [List.append_nil, List.forall_mem_singleton]
    exact .inr ⟨['t', 's', 'r', 'v', 'v'], by decide, by decide, by decide⟩
  have once : ((letters ["-vs", "a.iloc", "--table", "-rv"]).filter (· ≠ 'v')).Nodup := by decide
  have readable : Directory.read [("a.iloc", .file "nop".toUTF8)] "a.iloc" = .ok "nop" := by
    decide +kernel
  have same : (letters ["-tsrvv", "a.iloc"]).Perm (letters ["-vs", "a.iloc", "--table", "-rv"]) := by
    decide
  obtain ⟨arranged, shown⟩ := letters_decide_session apart once
  refine ⟨apart, once, arranged _ together same _, (shown _ _ readable).1.trans ?_⟩
  decide +kernel

end Iloc.CommandLine
