import Iloc.Proofs.LogLines
import Iloc.Proofs.Modes

namespace Iloc

namespace Node

theorem startsWith_header (n : Node) : n.header.startsWith "Line " = true := by
  rw [String.startsWith_string_iff]
  refine ⟨(toString n.line ++ ": " ++ n.opcode.name).toList, ?_⟩
  simp [header]

theorem startsWith_operandLine (labelled : String × String) :
    (operandLine labelled).startsWith "Line " = false := by
  rw [String.startsWith_string_eq_false_iff]
  intro begins
  obtain ⟨rest, same⟩ := begins
  have letters : "Line ".toList = 'L' :: "ine ".toList := by decide
  have head := congrArg List.head? same
  rw [letters] at head
  simp [operandLine] at head

/-- Only the header of a node begins as headers do. -/
theorem countP_lines (n : Node) : n.lines.countP (·.startsWith "Line ") = 1 := by
  have operands : (n.instruction.labelled.map operandLine).countP (·.startsWith "Line ") = 0 := by
    rw [List.countP_eq_zero]
    exact List.forall_mem_map.mpr fun labelled _ => by simp [startsWith_operandLine]
  rw [lines, List.countP_cons, operands, if_pos n.startsWith_header]

theorem countP_flatMap_lines (nodes : List Node) :
    (nodes.flatMap lines).countP (·.startsWith "Line ") = nodes.length := by
  induction nodes with
  | nil => rfl
  | cons n nodes ih =>
    rw [List.flatMap_cons, List.countP_append, countP_lines, ih, List.length_cons, Nat.add_comm]

end Node

namespace Analysis

theorem length_diagnostics (a : Analysis) :
    a.diagnostics.length = a.scan.diagnostics.length + a.program.diagnostics.length :=
  List.length_append

/-- A program is accepted if the two stages together found nothing. -/
theorem accepted_eq_decide (a : Analysis) :
    a.accepted = decide (a.scan.diagnostics.length + a.program.diagnostics.length = 0) := by
  rw [accepted, ← length_diagnostics, Bool.eq_iff_iff, decide_eq_true_eq, List.isEmpty_iff,
    List.length_eq_zero_iff]

end Analysis

theorem Report.length_listed_table (nodes : List Node) :
    (listed .ir true nodes).length = nodes.length := by
  rw [listed_table, List.length_map, List.length_map]

namespace CommandLine

structure Outcome.TalliesScan (settings : Settings) (tokens diagnostics : Nat) (outcome : Outcome) :
    Prop where
  log : outcome.log =
    unlines (Log.openingLines settings ++ [Log.scannedLine tokens diagnostics])
  lines : (linesOf outcome.output).length = diagnostics + tokens
  status : outcome.status = if diagnostics = 0 then 0 else 1

structure Outcome.TalliesRejection (settings : Settings) (tokens diagnostics instructions errors : Nat)
    (outcome : Outcome) : Prop where
  reported : 0 < diagnostics + errors
  log : outcome.log = unlines (Log.openingLines settings ++
    [Log.scannedLine tokens diagnostics, Log.parsedLine instructions errors,
      Log.rejectedLine (diagnostics + errors)])
  lines : (linesOf outcome.output).length = diagnostics + errors
  headings : ∀ line ∈ linesOf outcome.output, line.startsWith Diagnostic.heading = true
  status : outcome.status = 1

structure Outcome.TalliesAcceptance (settings : Settings) (tokens diagnostics instructions errors : Nat)
    (outcome : Outcome) : Prop where
  clean : diagnostics + errors = 0
  log : outcome.log = unlines (Log.openingLines settings ++
    [Log.scannedLine tokens diagnostics, Log.parsedLine instructions errors,
      Log.acceptedLine instructions])
  rows : settings.mode = .ir → settings.table = true →
    (linesOf outcome.output).length = instructions
  headers : settings.mode = .ir → settings.table = false →
    (linesOf outcome.output).countP (·.startsWith "Line ") = instructions
  answer : settings.mode = .parse → (linesOf outcome.output).length = 1
  status : outcome.status = 0

namespace Outcome

variable {settings : Settings} {source : String}

theorem status_logged (settings : Settings) (source : String) :
    (logged settings (.ok source)).status =
      if (report settings.mode settings.table source).accepted = true then 0 else 1 := rfl

theorem output_logged (settings : Settings) (source : String) :
    (logged settings (.ok source)).output = (report settings.mode settings.table source).output := rfl

theorem logged_unreadable (settings : Settings) (e : ReadError) :
    logged settings (.error e) = ⟨1, "", unlines (Log.openingLines settings ++
      [Log.unreadableLine settings.input e])⟩ :=
  congrArg (Outcome.mk 1 "") (Log.transcript_eq [.started settings, .unreadable settings.input e])

theorem log_logged (settings : Settings) (source : String) :
    (logged settings (.ok source)).log = unlines (Log.openingLines settings ++
      (report settings.mode settings.table source).events.flatMap Log.Event.lines) :=
  Log.transcript_eq (.started settings :: (report settings.mode settings.table source).events)

theorem log_logged_of_ne_scan (parses : settings.mode ≠ .scan) (source : String) :
    (logged settings (.ok source)).log = unlines (Log.openingLines settings ++
      [Log.Event.scanned (scan source).tokens.length (scan source).diagnostics.length,
        .parsed (analyze source).nodes.length (analyze source).program.diagnostics.length,
        (analyze source).verdict].flatMap Log.Event.lines) := by
  rw [log_logged, Report.report_eq_ofAnalysis parses]
  rfl

theorem talliesScan_logged (scans : settings.mode = .scan) :
    (logged settings (.ok source)).TalliesScan settings (scan source).tokens.length
      (scan source).diagnostics.length := by
  constructor
  · rw [log_logged, scans]
    rfl
  · rw [output_logged, scans, Report.linesOf_scan, List.length_append, List.length_map,
      List.length_map]
  · have accepted : (report .scan settings.table source).accepted = true ↔
        (scan source).diagnostics.length = 0 := by
      rw [List.length_eq_zero_iff, ← List.isEmpty_iff]
      rfl
    rw [status_logged, scans]
    simp only [accepted]

theorem talliesRejection_logged (parses : settings.mode ≠ .scan)
    (rejected : (analyze source).accepted = false) :
    (logged settings (.ok source)).TalliesRejection settings (scan source).tokens.length
      (scan source).diagnostics.length (analyze source).nodes.length
      (analyze source).program.diagnostics.length := by
  have total := (analyze source).length_diagnostics
  have written := (Report.linesOf_rejected settings.table parses rejected).2
  constructor
  · rw [Analysis.accepted_eq_decide, decide_eq_false_iff_not] at rejected
    exact Nat.pos_of_ne_zero rejected
  · have verdict : (analyze source).verdict = .rejected (analyze source).diagnostics.length := by
      rw [Analysis.verdict, rejected]
      rfl
    rw [log_logged_of_ne_scan parses, verdict, total]
    rfl
  · rw [output_logged, written, List.length_map, total]
    rfl
  · rw [output_logged, written]
    exact List.forall_mem_map.mpr fun d _ => d.startsWith_text
  · rw [status_logged, accepted_report_of_ne_scan parses, rejected]
    rfl

theorem talliesAcceptance_logged (parses : settings.mode ≠ .scan)
    (accepted : (analyze source).accepted = true) :
    (logged settings (.ok source)).TalliesAcceptance settings (scan source).tokens.length
      (scan source).diagnostics.length (analyze source).nodes.length
      (analyze source).program.diagnostics.length := by
  have written := (Report.linesOf_accepted settings.table parses accepted).2
  constructor
  · rw [Analysis.accepted_eq_decide, decide_eq_true_eq] at accepted
    exact accepted
  · have verdict : (analyze source).verdict = .accepted (analyze source).nodes.length := by
      rw [Analysis.verdict, if_pos accepted]
    rw [log_logged_of_ne_scan parses, verdict]
    rfl
  · intro ir table
    rw [output_logged, written, ir, table]
    exact Report.length_listed_table _
  · intro ir plain
    rw [output_logged, written, ir, plain]
    exact Node.countP_flatMap_lines _
  · intro parse
    rw [output_logged, written, parse]
    rfl
  · rw [status_logged, accepted_report_of_ne_scan parses, if_pos accepted]

end Outcome

/-- If a session shows all of its log, then the numbers there are those of the lines that it writes, and
    decide its exit status. -/
theorem log_tallies_match_output {arguments : List String} {settings : Settings}
    (asked : Invocation.ofArguments arguments = .session settings)
    (loud : 3 ≤ verboseCount arguments) (directory : Directory) :
    (∀ e, directory.read settings.input = .error e →
      session arguments directory =
        ⟨1, "", unlines (Log.openingLines settings ++ [Log.unreadableLine settings.input e])⟩) ∧
    ∀ source, directory.read settings.input = .ok source →
      (settings.mode = .scan →
        (session arguments directory).TalliesScan settings (scan source).tokens.length
          (scan source).diagnostics.length) ∧
      (settings.mode ≠ .scan →
        (session arguments directory).TalliesRejection settings (scan source).tokens.length
          (scan source).diagnostics.length (analyze source).nodes.length
          (analyze source).program.diagnostics.length ∨
        (session arguments directory).TalliesAcceptance settings (scan source).tokens.length
          (scan source).diagnostics.length (analyze source).nodes.length
          (analyze source).program.diagnostics.length) := by
  have shown : session arguments directory = .logged settings (directory.read settings.input) :=
    session_of_three_le asked loud
  refine ⟨?_, ?_⟩
  · intro e unreadable
    rw [shown, unreadable, Outcome.logged_unreadable]
  · intro source readable
    rw [shown, readable]
    refine ⟨Outcome.talliesScan_logged, ?_⟩
    intro parses
    cases accepted : (analyze source).accepted with
    | true => exact .inr (Outcome.talliesAcceptance_logged parses accepted)
    | false => exact .inl (Outcome.talliesRejection_logged parses accepted)

theorem log_tallies_match_table :
    Invocation.ofArguments ["-vvv", "-rt", "a.iloc"] = .session ⟨.debug, .ir, true, "a.iloc"⟩ ∧
    3 ≤ verboseCount ["-vvv", "-rt", "a.iloc"] ∧
    session ["-vvv", "-rt", "a.iloc"] [] = ⟨1, "",
      "[iloc_fe][DEBUG] Arguments:\n\tVerbosity: DEBUG\n\tMode: Ir\n\tTable: true\n" ++
        "\tInfile: a.iloc\n[iloc_fe][ERROR] fatal: unable to read input file `a.iloc`: " ++
        "No such file or directory (os error 2)\n"⟩ ∧
    Directory.read [("a.iloc", .file "add r1, r2 => r3\nnop".toUTF8)] "a.iloc" =
      .ok "add r1, r2 => r3\nnop" ∧
    (session ["-vvv", "-rt", "a.iloc"] [("a.iloc", .file "add r1, r2 => r3\nnop".toUTF8)]).log =
      "[iloc_fe][DEBUG] Arguments:\n\tVerbosity: DEBUG\n\tMode: Ir\n\tTable: true\n" ++
        "\tInfile: a.iloc\n" ++
        "[iloc_fe::frontend::lexer][DEBUG] Scanned 7 token(s), 0 diagnostic(s) so far.\n" ++
        "[iloc_fe::frontend::parser][DEBUG] Parsed 2 instruction(s) with 0 error(s).\n" ++
        "[iloc_fe][INFO] Accepted program with 2 instruction(s).\n" ∧
    (linesOf (session ["-vvv", "-rt", "a.iloc"]
      [("a.iloc", .file "add r1, r2 => r3\nnop".toUTF8)]).output).length = 2 ∧
    (session ["-vvv", "-rt", "a.iloc"]
      [("a.iloc", .file "add r1, r2 => r3\nnop".toUTF8)]).status = 0 := by
  have asked : Invocation.ofArguments ["-vvv", "-rt", "a.iloc"] =
      .session ⟨.debug, .ir, true, "a.iloc"⟩ := by decide +kernel
  have loud : 3 ≤ verboseCount ["-vvv", "-rt", "a.iloc"] := by decide +kernel
  have unreadable := (log_tallies_match_output asked loud []).1 .missing rfl
  have readable : Directory.read [("a.iloc", .file "add r1, r2 => r3\nnop".toUTF8)] "a.iloc" =
      .ok "add r1, r2 => r3\nnop" := by decide +kernel
  have counts : (scan "add r1, r2 => r3\nnop").tokens.length = 7 ∧
      (scan "add r1, r2 => r3\nnop").diagnostics.length = 0 ∧
      (analyze "add r1, r2 => r3\nnop").program.diagnostics.length = 0 ∧
      (analyze "add r1, r2 => r3\nnop").nodes.length = 2 := by decide +kernel
  obtain ⟨tokens, scanned, parsed, instructions⟩ := counts
  have tallies := (log_tallies_match_output asked loud _).2 _ readable
  rw [tokens, scanned, parsed, instructions] at tallies
  rcases tallies.2 (by decide) with rejection | acceptance
  · exact absurd rejection.reported (by decide)
  · refine ⟨asked, loud, unreadable.trans ?_, readable, acceptance.log.trans ?_,
      acceptance.rows rfl rfl, acceptance.status⟩
    · decide +kernel
    · decide +kernel

end CommandLine

end Iloc
