import Iloc.Proofs.Grammar
import Iloc.Proofs.Matching
import Mathlib.Data.List.SplitBy

namespace Iloc

def Token.blocks (tokens : List Token) : List (List Token) :=
  tokens.splitBy fun _ t => t.kind ≠ .opcode

/-- The reports on one block of tokens that stands before `following`. -/
inductive Accounts (following : List Token) : List Token → List Diagnostic → Prop where
  | leading {tail : List Token} : (∀ u ∈ tail, u.kind ≠ .opcode) →
      Accounts following tail (tail.map Token.misplaced)
  | unknown {t : Token} {tail : List Token} : t.kind = .opcode → (∀ op : Opcode, t.lexeme ≠ op.name) →
      (∀ u ∈ tail, u.kind ≠ .opcode) →
      Accounts following (t :: tail)
        (⟨.number t.line, .unknownOpcode t.lexeme⟩ :: tail.map Token.misplaced)
  | known {op : Opcode} {t : Token} {tail : List Token} {k : Nat} {places : List Nat} : t.Names op →
      (∀ u ∈ tail, u.kind ≠ .opcode) → Takes op.slots tail k places →
      Accounts following (t :: tail)
        (emptySlots op.slots (tail ++ following) places ++ (tail.drop k).map Token.misplaced)

inductive AllAccounts : List (List Token) → List Diagnostic → Prop where
  | nil : AllAccounts [] []
  | cons {block : List Token} {blocks : List (List Token)} {reports later : List Diagnostic} :
      Accounts blocks.flatten block reports → AllAccounts blocks later →
      AllAccounts (block :: blocks) (reports ++ later)

/-- Only the slots that look past the end of the tokens are reported elsewhere if others follow. -/
theorem Takes.emptySlots_append {slots : List Slot} {tokens : List Token} {k : Nat} {places : List Nat}
    (takes : Takes slots tokens k places) (following : List Token) :
    emptySlots slots (tokens ++ following) places =
      (emptySlots slots tokens places).map (Diagnostic.endingAt (.ofHead following)) := by
  rw [emptySlots, emptySlots, List.map_map]
  apply List.map_congr_left
  intro entry _
  have bound : places.countP (· < entry.2) ≤ tokens.length := by
    calc places.countP (· < entry.2) ≤ places.length := List.countP_le_length
      _ = k := takes.length_places
      _ ≤ tokens.length := takes.length_le
  simp only [Function.comp_apply, Diagnostic.endingAt]
  rw [List.drop_append_of_le_length bound, Line.ofHead_append]

theorem Token.map_misplaced_endingAt (ending : Line) (tokens : List Token) :
    (tokens.map misplaced).map (Diagnostic.endingAt ending) = tokens.map misplaced := by
  rw [List.map_map]
  rfl

open Program (ofTokens parse start)

theorem diagnostics_ofTokens_cons_of_names {op : Opcode} {t : Token} {tail : List Token}
    (names : t.Names op) (plain : ∀ u ∈ tail, u.kind ≠ .opcode) :
    (ofTokens (t :: tail)).diagnostics =
      (fill op.slots tail).diagnostics ++ (fill op.slots tail).rest.map Token.misplaced := by
  have left : ∀ u ∈ (fill op.slots tail).rest, u.kind ≠ .opcode := by
    intro u member
    exact plain u ((fill_rest_suffix op.slots tail).subset member)
  rw [ofTokens, Program.start_of_names names, Program.ofTokens_of_plain left]
  rfl

theorem diagnostics_ofTokens_cons_of_unknown {t : Token} {tail : List Token} (opcode : t.kind = .opcode)
    (unnamed : ∀ op : Opcode, t.lexeme ≠ op.name) (plain : ∀ u ∈ tail, u.kind ≠ .opcode) :
    (ofTokens (t :: tail)).diagnostics =
      ⟨.number t.line, .unknownOpcode t.lexeme⟩ :: tail.map Token.misplaced := by
  rcases Program.start_cases t tail with ⟨other, -⟩ | ⟨-, -, step⟩ | ⟨op, -, named, -⟩
  · exact absurd opcode other
  · rw [ofTokens, step, Program.ofTokens_of_plain plain]
    rfl
  · exact absurd named (unnamed op)

/-- The accounts of a block are what is reported of it alone, up to where its end is. -/
theorem Accounts.eq {following block : List Token} {reports : List Diagnostic}
    (accounts : Accounts following block reports) :
    reports = (ofTokens block).diagnostics.map (Diagnostic.endingAt (.ofHead following)) := by
  cases accounts with
  | leading plain => rw [Program.ofTokens_of_plain plain, Token.map_misplaced_endingAt]
  | unknown opcode unnamed plain =>
    rw [diagnostics_ofTokens_cons_of_unknown opcode unnamed plain, List.map_cons,
      Token.map_misplaced_endingAt]
    rfl
  | @known op t tail k places names plain takes =>
    obtain ⟨m, others, same, filling⟩ := exists_takes op.slots tail
    obtain ⟨rfl, rfl⟩ := takes.unique same
    rw [diagnostics_ofTokens_cons_of_names names plain, filling, List.map_append,
      Token.map_misplaced_endingAt, takes.emptySlots_append]

theorem exists_accounts (following : List Token) (t : Token) {tail : List Token}
    (plain : ∀ u ∈ tail, u.kind ≠ .opcode) : ∃ reports, Accounts following (t :: tail) reports := by
  by_cases opcode : t.kind = .opcode
  · by_cases named : ∃ op : Opcode, t.lexeme = op.name
    · obtain ⟨op, named⟩ := named
      obtain ⟨k, places, takes, -⟩ := exists_takes op.slots tail
      exact ⟨_, .known ⟨opcode, named⟩ plain takes⟩
    · exact ⟨_, .unknown opcode (fun op same => named ⟨op, same⟩) plain⟩
  · exact ⟨_, .leading (List.forall_mem_cons.mpr ⟨opcode, plain⟩)⟩

structure AreBlocks (blocks : List (List Token)) : Prop where
  shape : ∀ block ∈ blocks, ∃ t tail, block = t :: tail ∧ ∀ u ∈ tail, u.kind ≠ .opcode
  opens : blocks.IsChain fun _ block => ∀ t ∈ block.head?, t.kind = .opcode

theorem forall_mem_tail_of_isChain {p : Token → Prop} {t : Token} {tail : List Token}
    (chain : (t :: tail).IsChain fun _ u => p u) : ∀ u ∈ tail, p u := by
  induction tail generalizing t with
  | nil => simp
  | cons u tail ih =>
    obtain ⟨first, chain⟩ := List.isChain_cons_cons.mp chain
    exact List.forall_mem_cons.mpr ⟨first, ih chain⟩

theorem areBlocks_blocks (tokens : List Token) : AreBlocks (Token.blocks tokens) := by
  refine ⟨?_, ?_⟩
  · intro block member
    obtain ⟨t, tail, rfl⟩ := List.exists_cons_of_ne_nil (List.ne_nil_of_mem_splitBy member)
    have chain : (t :: tail).IsChain fun _ u => decide (u.kind ≠ .opcode) = true :=
      List.isChain_of_mem_splitBy member
    have plain := forall_mem_tail_of_isChain chain
    exact ⟨t, tail, rfl, fun u member => of_decide_eq_true (plain u member)⟩
  · apply (List.isChain_getLast_head_splitBy _ tokens).imp
    intro before block boundary t head
    obtain ⟨_, nonempty, opcode⟩ := boundary
    rw [List.head_of_mem_head? head] at opcode
    simpa using opcode

namespace AreBlocks

variable {block : List Token} {blocks : List (List Token)}

theorem later (cut : AreBlocks (block :: blocks)) : AreBlocks blocks :=
  ⟨(List.forall_mem_cons.mp cut.shape).2, (List.isChain_cons.mp cut.opens).2⟩

theorem opcode_follows (cut : AreBlocks (block :: blocks)) :
    ∀ t ∈ blocks.flatten.head?, t.kind = .opcode := by
  cases blocks with
  | nil => simp
  | cons next blocks =>
    obtain ⟨u, tail, rfl, -⟩ := cut.shape next (by simp)
    have opens := (List.isChain_cons.mp cut.opens).1 (u :: tail) rfl
    exact opens

theorem allAccounts_iff (cut : AreBlocks blocks) {reports : List Diagnostic} :
    AllAccounts blocks reports ↔ (ofTokens blocks.flatten).diagnostics = reports := by
  induction blocks generalizing reports with
  | nil =>
    rw [List.flatten_nil, Program.ofTokens_nil]
    exact ⟨fun accounts => by cases accounts; rfl, fun none => none ▸ .nil⟩
  | cons block blocks ih =>
    -- The next block opens with an opcode, so this one is read as if it stood alone.
    have split := congrArg Program.diagnostics (Program.ofTokens_append cut.opcode_follows block)
    rw [Program.diagnostics_append] at split
    rw [List.flatten_cons, split]
    refine ⟨?_, ?_⟩
    · intro accounts
      cases accounts with
      | cons first later => rw [(ih cut.later).mp later, first.eq]; rfl
    · rintro rfl
      obtain ⟨t, tail, rfl, plain⟩ := cut.shape block (by simp)
      obtain ⟨reports, first⟩ := exists_accounts blocks.flatten t plain
      have same : reports = _ := first.eq
      rw [same] at first
      exact .cons first ((ih cut.later).mpr rfl)

end AreBlocks

/-- The diagnostics are those of the blocks, one after the other. In a block that opens with a known
    opcode the slots take the longest prefix of the tail that fits them; there is a diagnostic for each
    slot that stays empty, and one for each token that is left. -/
theorem diagnostics_account_for_blocks :
    (∀ tokens reports, (Program.parse tokens).diagnostics = reports ↔
      AllAccounts (Token.blocks (Token.withoutComments tokens)) reports) ∧
    ∀ (op : Opcode) (t : Token) (tail following : List Token), t.Names op →
      (∀ u ∈ tail, u.kind ≠ .opcode) → (∀ u ∈ following.head?, u.kind = .opcode) →
      ∃ k places, Takes op.slots tail k places ∧
        (start t (tail ++ following)).2 = tail.drop k ++ following ∧
        (start t (tail ++ following)).1.diagnostics =
          emptySlots op.slots (tail ++ following) places ∧
        (emptySlots op.slots (tail ++ following) places).length + k = op.slots.length := by
  refine ⟨?_, ?_⟩
  · intro tokens reports
    rw [(areBlocks_blocks _).allAccounts_iff, Token.blocks, List.flatten_splitBy, Program.parse]
  · intro op t tail following names plain opens
    obtain ⟨k, places, takes, filling⟩ := exists_takes op.slots tail
    have length := length_diagnostics_fill op.slots tail
    have bound := takes.length_le
    simp only [filling, List.length_drop] at length
    have step := Program.start_of_names names (tail ++ following)
    rw [fill_append opens, filling] at step
    refine ⟨k, places, takes, congrArg Prod.snd step, ?_, ?_⟩
    · rw [step, takes.emptySlots_append]
      rfl
    · rw [takes.emptySlots_append, List.length_map]
      omega

end Iloc
