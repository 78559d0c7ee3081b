import Iloc.CommandLine.Session

namespace Iloc

namespace Log

def transcript (records : List Event) : String := unlines (records.map Event.record)

def visible (count : Nat) (records : List Event) : List Event :=
  records.filter fun e => (Level.ofCount count).shownAt e.level

theorem Level.rank_ofCount (count : Nat) : (ofCount count).rank = min count 3 := by
  match count with
  | 0 | 1 | 2 => rfl
  | n + 3 =>
    have bound : min (n + 3) 3 = 3 := by omega
    rw [bound]
    rfl

theorem visible_visible {fewer more : Nat} (le : fewer ≤ more) (records : List Event) :
    visible fewer (visible more records) = visible fewer records := by
  rw [visible, visible, List.filter_filter]
  apply List.filter_congr
  intro e _
  rw [Bool.and_eq_left_iff_imp]
  simp only [Level.shownAt, Level.rank_ofCount, decide_eq_true_eq]
  omega

theorem visible_of_three_le {count : Nat} (many : 3 ≤ count) (records : List Event) :
    visible count records = records := by
  apply List.filter_eq_self.mpr
  intro e _
  have highest : e.level.rank ≤ 3 := by cases e.level <;> decide
  rw [Level.shownAt, Level.rank_ofCount, decide_eq_true_eq]
  omega

end Log

namespace CommandLine

def verboseCount (arguments : List String) : Nat :=
  (Item.ofArguments arguments).count (.flag .verbose)

def louder (count : Nat) (arguments : List String) : List String :=
  List.replicate count "-v" ++ arguments

theorem Item.ofArguments_louder (count : Nat) (arguments : List String) :
    ofArguments (louder count arguments) =
      List.replicate count (.flag .verbose) ++ ofArguments arguments := by
  induction count with
  | zero => rfl
  | succ count ih =>
    have option : ofArgument "-v" = [.flag .verbose] := by decide
    have other : ("-v" : String) ≠ "--" := by decide
    have first : louder (count + 1) arguments = "-v" :: louder count arguments := rfl
    rw [first, ofArguments, if_neg other, option, ih]
    rfl

structure Gathered.Agrees (g h : Gathered) : Prop where
  input : g.input = h.input
  count : ∀ f, f ≠ .verbose → g.flags.count f = h.flags.count f

namespace Invocation

def withVerbosity (level : Log.Level) : Invocation → Invocation
  | .session settings => .session { settings with verbosity := level }
  | .help => .help
  | .version => .version
  | .misuse m => .misuse m

end Invocation

namespace Gathered.Agrees

variable {g h : Gathered}

theorem mem_iff (agrees : g.Agrees h) {f : Flag} (other : f ≠ .verbose) :
    f ∈ g.flags ↔ f ∈ h.flags := by
  rw [← List.count_pos_iff, ← List.count_pos_iff, agrees.count f other]

theorem mode (agrees : g.Agrees h) : g.mode = h.mode := by
  have scan := agrees.mem_iff (by decide : Flag.scan ≠ .verbose)
  have parse := agrees.mem_iff (by decide : Flag.parse ≠ .verbose)
  have ir := agrees.mem_iff (by decide : Flag.ir ≠ .verbose)
  simp only [Gathered.mode, scan, parse, ir]

theorem repeated? (agrees : g.Agrees h) : g.repeated? = h.repeated? := by
  have scan := agrees.count .scan (by decide)
  have parse := agrees.count .parse (by decide)
  have ir := agrees.count .ir (by decide)
  have table := agrees.count .table (by decide)
  simp only [Gathered.repeated?, List.find?, scan, parse, ir, table]

theorem finish (agrees : g.Agrees h) :
    h.finish = g.finish.withVerbosity (.ofCount (h.flags.count .verbose)) := by
  have table := agrees.mem_iff (by decide : Flag.table ≠ .verbose)
  rw [Gathered.finish, Gathered.finish, ← agrees.input, ← agrees.repeated?]
  cases g.input with
  | none => rfl
  | some input =>
    cases g.repeated? with
    | some f => rfl
    | none => simp [Invocation.withVerbosity, settings, agrees.mode, table]

theorem append (agrees : g.Agrees h) (f : Flag) :
    Gathered.Agrees { g with flags := g.flags ++ [f] } { h with flags := h.flags ++ [f] } := by
  refine ⟨agrees.input, ?_⟩
  intro f' other
  rw [List.count_append, List.count_append, agrees.count f' other]

end Gathered.Agrees

namespace Invocation

theorem ofItems_flag (g : Gathered) {f : Flag} (later : f ≠ .help ∧ f ≠ .version) (items : List Item) :
    ofItems g (.flag f :: items) = ofItems { g with flags := g.flags ++ [f] } items := by
  cases f with
  | help => exact absurd rfl later.1
  | version => exact absurd rfl later.2
  | _ => rfl

theorem ofItems_flags (g : Gathered) {flags : List Flag}
    (later : ∀ f ∈ flags, f ≠ .help ∧ f ≠ .version) (items : List Item) :
    ofItems g (flags.map .flag ++ items) = ofItems { g with flags := g.flags ++ flags } items := by
  induction flags generalizing g with
  | nil => simp
  | cons f flags ih =>
    obtain ⟨first, later⟩ := List.forall_mem_cons.mp later
    rw [List.map_cons, List.cons_append, ofItems_flag g first, ih _ later, List.append_assoc]
    rfl

/-- How often `-v` has come decides the verbosity and nothing else. -/
theorem ofItems_agrees {g h : Gathered} (agrees : g.Agrees h) (items : List Item) :
    ofItems h items = (ofItems g items).withVerbosity
      (.ofCount (h.flags.count .verbose + items.count (.flag .verbose))) := by
  -- The items still to come are the same for both; what was gathered before them need only agree.
  induction items generalizing g h with
  | nil => exact agrees.finish
  | cons item items ih =>
    cases item with
    | flag f =>
      by_cases ends : f = .help ∨ f = .version
      · rcases ends with rfl | rfl <;> rfl
      · rw [not_or] at ends
        have total : h.flags.count .verbose + (Item.flag f :: items).count (.flag .verbose) =
            (h.flags ++ [f]).count .verbose + items.count (.flag .verbose) := by
          rw [List.count_append, List.count_cons, List.count_singleton]
          simp only [beq_iff_eq, Item.flag.injEq]
          omega
        rw [ofItems_flag g ends, ofItems_flag h ends, ih (agrees.append f), total]
    | operand text =>
      have input := agrees.input
      simp only [ofItems, ← input]
      cases g.input with
      | none =>
        rw [List.count_cons_of_ne (by simp)]
        exact ih ⟨rfl, agrees.count⟩
      | some given => rfl
    | unknown spelling => rfl

theorem ofArguments_louder (count : Nat) (arguments : List String) :
    ofArguments (louder count arguments) =
      (ofArguments arguments).withVerbosity (.ofCount (count + verboseCount arguments)) := by
  have agrees : Gathered.Agrees ⟨[], none⟩ ⟨List.replicate count .verbose, none⟩ := by
    refine ⟨rfl, ?_⟩
    intro f other
    rw [List.count_nil, List.count_replicate, if_neg]
    simpa using other.symm
  have later : ∀ f ∈ List.replicate count Flag.verbose, f ≠ .help ∧ f ≠ .version := by
    intro f member
    obtain rfl := List.eq_of_mem_replicate member
    decide
  have read := ofItems_agrees agrees (Item.ofArguments arguments)
  rw [List.count_replicate_self] at read
  rw [ofArguments, Item.ofArguments_louder, ← List.map_replicate, ofItems_flags _ later,
    List.nil_append, read]
  rfl

end Invocation

def sessionRecords (settings : Settings) : Except ReadError String → List Log.Event
  | .error e => [.started settings, .unreadable settings.input e]
  | .ok source => .started settings :: (report settings.mode settings.table source).events

namespace Outcome

def logged (settings : Settings) (found : Except ReadError String) : Outcome :=
  { ofSession settings found with log := Log.transcript (sessionRecords settings found) }

/-- The one record that tells the verbosity is shown at one verbosity alone. -/
theorem filter_started (settings : Settings) (level : Log.Level) (records : List Log.Event) :
    (Log.Event.started { settings with verbosity := level } :: records).filter
        (fun e => level.shownAt e.level) =
      (Log.Event.started { settings with verbosity := .debug } :: records).filter
        (fun e => level.shownAt e.level) := by
  cases level with
  | debug => rfl
  | _ => rfl

/-- Verbosity decides which of a session's records are shown, and not what they say. -/
theorem ofSession_withVerbosity (settings : Settings) (found : Except ReadError String) (count : Nat) :
    ofSession { settings with verbosity := .ofCount count } found =
      { ofSession settings found with
        log := Log.transcript (Log.visible count
          (sessionRecords { settings with verbosity := .debug } found)) } := by
  cases found with
  | error e =>
    have shown := filter_started settings (.ofCount count) [.unreadable settings.input e]
    exact congrArg (fun records => Outcome.mk 1 "" (Log.transcript records)) shown
  | ok source =>
    have shown := filter_started settings (.ofCount count)
      (report settings.mode settings.table source).events
    exact congrArg (fun records => Outcome.mk _ _ (Log.transcript records)) shown

end Outcome

theorem session_louder (arguments : List String) (directory : Directory) (count : Nat) :
    session (louder count arguments) directory =
      ((Invocation.ofArguments arguments).withVerbosity
        (.ofCount (count + verboseCount arguments))).run directory.read := by
  rw [session, Invocation.ofArguments_louder]

section Session

variable {arguments : List String} {directory : Directory} {settings : Settings}

theorem session_louder_of_session (asked : Invocation.ofArguments arguments = .session settings)
    (count : Nat) :
    session (louder count arguments) directory =
      { Outcome.ofSession settings (directory.read settings.input) with
        log := Log.transcript (Log.visible (count + verboseCount arguments)
          (sessionRecords { settings with verbosity := .debug } (directory.read settings.input))) } := by
  rw [session_louder, asked]
  exact Outcome.ofSession_withVerbosity settings _ _

theorem session_of_session (asked : Invocation.ofArguments arguments = .session settings) :
    session arguments directory =
      { Outcome.ofSession settings (directory.read settings.input) with
        log := Log.transcript (Log.visible (verboseCount arguments)
          (sessionRecords { settings with verbosity := .debug } (directory.read settings.input))) } := by
  have same : session (louder 0 arguments) directory = _ := session_louder_of_session asked 0
  rw [Nat.zero_add] at same
  exact same

theorem session_louder_of_not_session
    (other : ∀ settings, Invocation.ofArguments arguments ≠ .session settings) (count : Nat) :
    session (louder count arguments) directory = session arguments directory := by
  rw [session_louder, session]
  cases invocation : Invocation.ofArguments arguments with
  | session settings => exact absurd invocation (other settings)
  | _ => rfl

theorem verbosity_of_session (asked : Invocation.ofArguments arguments = .session settings) :
    settings.verbosity = .ofCount (verboseCount arguments) := by
  have same := Invocation.ofArguments_louder 0 arguments
  have none : louder 0 arguments = arguments := rfl
  rw [none, asked, Nat.zero_add] at same
  exact congrArg Settings.verbosity (Invocation.session.inj same)

/-- With `-v` three times, a session shows all that it logs. -/
theorem session_of_three_le (asked : Invocation.ofArguments arguments = .session settings)
    (many : 3 ≤ verboseCount arguments) :
    session arguments directory = .logged settings (directory.read settings.input) := by
  have debug : settings.verbosity = .debug := by
    obtain ⟨more, count⟩ := Nat.exists_eq_add_of_le' many
    rw [verbosity_of_session asked, count]
    rfl
  have same : { settings with verbosity := .debug } = settings := by rw [← debug]
  rw [session_of_session asked, Log.visible_of_three_le many, same]
  rfl

/-- More `-v` in front of the arguments change nothing but which records of one log are shown. -/
theorem verbosity_only_filters_log (arguments : List String) (directory : Directory) :
    (∀ count,
      (session (louder count arguments) directory).status = (session arguments directory).status ∧
      (session (louder count arguments) directory).output = (session arguments directory).output) ∧
    ((∀ settings, Invocation.ofArguments arguments ≠ .session settings) →
      ∀ count, session (louder count arguments) directory = session arguments directory) ∧
    (∀ settings, Invocation.ofArguments arguments = .session settings →
      ∃ records, ∀ fewer more, fewer ≤ more →
        (session (louder more arguments) directory).log =
          Log.transcript (Log.visible (more + verboseCount arguments) records) ∧
        (session (louder fewer arguments) directory).log =
          Log.transcript (Log.visible (fewer + verboseCount arguments)
            (Log.visible (more + verboseCount arguments) records))) ∧
    (3 ≤ verboseCount arguments →
      ∀ count, session (louder count arguments) directory = session arguments directory) := by
  refine ⟨?_, session_louder_of_not_session, ?_, ?_⟩
  · intro count
    by_cases asks : ∃ settings, Invocation.ofArguments arguments = .session settings
    · obtain ⟨settings, asked⟩ := asks
      rw [session_louder_of_session asked, session_of_session asked]
      exact ⟨rfl, rfl⟩
    · rw [session_louder_of_not_session (not_exists.mp asks)]
      exact ⟨rfl, rfl⟩
  · intro settings asked
    refine ⟨sessionRecords { settings with verbosity := .debug } (directory.read settings.input), ?_⟩
    intro fewer more le
    rw [session_louder_of_session asked, session_louder_of_session asked,
      Log.visible_visible (Nat.add_le_add_right le _)]
    exact ⟨rfl, rfl⟩
  · intro many count
    by_cases asks : ∃ settings, Invocation.ofArguments arguments = .session settings
    · obtain ⟨settings, asked⟩ := asks
      have still : 3 ≤ count + verboseCount arguments := Nat.le_add_left_of_le many
      rw [session_louder_of_session asked, session_of_session asked, Log.visible_of_three_le still,
        Log.visible_of_three_le many]
    · exact session_louder_of_not_session (not_exists.mp asks) count

end Session

end CommandLine

end Iloc
