import Iloc.Proofs.ReportOrder

namespace Iloc

open Diagnostic (numbered)

theorem Diagnostic.map_endingAt_of_numbered {reports : List Diagnostic}
    (named : ∀ d ∈ reports, d.line ≠ .eof) (ending : Line) :
    reports.map (endingAt ending) = reports := by
  have same : ∀ d ∈ reports, endingAt ending d = d := by
    intro d member
    obtain ⟨line, problem⟩ := d
    cases line with
    | number n => rfl
    | eof => exact absurd rfl (named _ member)
  rw [List.map_congr_left same, List.map_id']

theorem operands_fill_nil {slots : List Slot} {slot : Slot} (member : slot ∈ slots)
    (operand : slot.isOperand) : (fill slots []).operands = none := by
  induction slots with
  | nil => cases member
  | cons first slots ih =>
    rw [fill, Filling.missed]
    rcases List.mem_cons.mp member with rfl | member
    · exact if_pos operand
    · rw [ih member, ite_self]

theorem line_of_mem_fill_nil (slots : List Slot) : ∀ d ∈ (fill slots []).diagnostics, d.line = .eof := by
  have points : PointsAlong [] ((fill slots []).diagnostics ++ []) := .append_fill slots .nil
  rw [List.append_nil] at points
  exact points.line_eq_eof

/-- Tokens that follow make a difference only to slots that were tried when no token was left. The last
    slot is among these, so if it asks for an operand there was no node. -/
theorem fill_append_cases {slots : List Slot} (ends : ∀ slot ∈ slots.getLast?, slot.isOperand)
    (tokens following : List Token) :
    (fill slots (tokens ++ following) = (fill slots tokens).followedBy following ∧
      ∀ d ∈ (fill slots tokens).diagnostics, d.line ≠ .eof) ∨
    (fill slots tokens).operands = none ∧ (fill slots tokens).rest = [] ∧
      numbered (fill slots tokens).diagnostics <+: (fill slots (tokens ++ following)).diagnostics := by
  induction slots generalizing tokens with
  | nil => exact .inl ⟨rfl, by simp [fill, Filling.done]⟩
  | cons slot slots ih =>
    have endsLater : ∀ last ∈ slots.getLast?, last.isOperand := by
      intro last member
      apply ends
      rw [List.getLast?_cons, Option.mem_def.mp member]
      rfl
    rcases fill_cons_cases slot slots tokens with ⟨t, rest, rfl, same, step⟩ | ⟨other, step⟩
    · rw [List.cons_append, fill_cons_of_kind same, step]
      rcases ih endsLater rest with ⟨whole, named⟩ | ⟨none, last, early⟩
      · rw [whole, Filling.followedBy_taken, Filling.diagnostics_taken]
        exact .inl ⟨rfl, named⟩
      · rw [Filling.operands_taken, none, Filling.rest_taken, Filling.diagnostics_taken,
          Filling.diagnostics_taken]
        exact .inr ⟨by simp, last, early⟩
    · cases tokens with
      | nil =>
        have last := List.getLast_mem (List.cons_ne_nil slot slots)
        have operand := ends _ (List.getLast?_eq_some_getLast (List.cons_ne_nil slot slots))
        have none := Diagnostic.numbered_eq_nil_iff.mpr (line_of_mem_fill_nil (slot :: slots))
        refine .inr ⟨operands_fill_nil last operand, ?_, ?_⟩
        · exact List.suffix_nil.mp (fill_rest_suffix (slot :: slots) [])
        · rw [none]
          exact List.nil_prefix
      | cons t rest =>
        have still : ∀ u ∈ (t :: rest ++ following).head?, u.kind ≠ slot.kind := other
        rw [fill_cons_of_head_kind_ne still, step]
        rcases ih endsLater (t :: rest) with ⟨whole, named⟩ | ⟨none, last, early⟩
        · rw [whole, Filling.followedBy_missed, Filling.diagnostics_missed]
          exact .inl ⟨rfl, List.forall_mem_cons.mpr ⟨by simp [Line.ofHead], named⟩⟩
        · refine .inr ⟨?_, last, ?_⟩
          · rw [Filling.missed, none, ite_self]
          · exact (List.prefix_cons_inj _).mpr early

theorem Opcode.isOperand_getLast?_slots (op : Opcode) : ∀ slot ∈ op.slots.getLast?, slot.isOperand := by
  cases op <;> simp [slots] <;> decide

namespace Program

theorem start_append_cases (t : Token) (rest following : List Token) :
    (start t (rest ++ following) =
        ((start t rest).1.endingAt (.ofHead following), (start t rest).2 ++ following) ∧
      ∀ d ∈ (start t rest).1.diagnostics, d.line ≠ .eof) ∨
    (start t rest).1.nodes = [] ∧ (start t rest).2 = [] ∧
      numbered (start t rest).1.diagnostics <+: (start t (rest ++ following)).1.diagnostics := by
  unfold start
  split
  · split
    · rename_i op _
      rcases fill_append_cases op.isOperand_getLast?_slots rest following with ⟨whole, named⟩ |
        ⟨none, last, early⟩
      · rw [whole]
        exact .inl ⟨rfl, named⟩
      · refine .inr ⟨?_, last, early⟩
        rw [ofFilling, none]
        rfl
    · exact .inl ⟨rfl, by simp [report]⟩
  · exact .inl ⟨rfl, by simp [report]⟩

theorem prefix_ofTokens_append (tokens following : List Token) :
    (ofTokens tokens).nodes <+: (ofTokens (tokens ++ following)).nodes ∧
      numbered (ofTokens tokens).diagnostics <+: (ofTokens (tokens ++ following)).diagnostics := by
  fun_induction ofTokens tokens with
  | case1 => exact ⟨List.nil_prefix, List.nil_prefix⟩
  | case2 t rest ih =>
    rw [List.cons_append, ofTokens, nodes_append, nodes_append, diagnostics_append,
      diagnostics_append]
    rcases start_append_cases t rest following with ⟨whole, named⟩ | ⟨none, last, early⟩
    · have kept : numbered (start t rest).1.diagnostics = (start t rest).1.diagnostics :=
        Diagnostic.numbered_eq_self_iff.mpr named
      have unmoved := Diagnostic.map_endingAt_of_numbered named (.ofHead following)
      rw [whole, endingAt, unmoved, numbered, List.filter_append, ← numbered, kept]
      exact ⟨(List.prefix_append_right_inj _).mpr ih.1, (List.prefix_append_right_inj _).mpr ih.2⟩
    · rw [none, last, ofTokens_nil]
      refine ⟨List.nil_prefix, ?_⟩
      rw [empty, List.append_nil]
      exact early.trans (List.prefix_append _ _)

end Program

open Program (parse)

/-- More tokens after a text change nothing that was read or reported before, but for what was reported
    at its end. -/
theorem reading_extends (before after : List Token) :
    (parse before).nodes <+: (parse (before ++ after)).nodes ∧
      numbered (parse before).diagnostics <+: (parse (before ++ after)).diagnostics := by
  rw [parse, parse, Token.withoutComments_append]
  exact Program.prefix_ofTokens_append _ _

end Iloc
