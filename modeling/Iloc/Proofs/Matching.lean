import Iloc.Proofs.Resumption
import Mathlib.Data.List.Forall2
import Mathlib.Order.Bounds.Basic

namespace Iloc

/-- One slot for each token, by its number: in order, and of the token's kind. -/
structure Matching (slots : List Slot) (taken : List Token) (places : List Nat) : Prop where
  increasing : places.Pairwise (· < ·)
  kinds : List.Forall₂ (fun j t => slots[j]?.map Slot.kind = some t.kind) places taken

structure Leftmost (slots : List Slot) (taken : List Token) (places : List Nat) : Prop
    extends Matching slots taken places where
  least : ∀ others, Matching slots taken others → List.Forall₂ (· ≤ ·) places others

/-- The lengths of the prefixes of `tokens` whose kinds occur among those of the slots, in order. -/
def Placeable (slots : List Slot) (tokens : List Token) : Set Nat :=
  {k | k ≤ tokens.length ∧ ((tokens.take k).map Token.kind).Sublist (slots.map Slot.kind)}

structure Takes (slots : List Slot) (tokens : List Token) (k : Nat) (places : List Nat) : Prop where
  longest : IsGreatest (Placeable slots tokens) k
  leftmost : Leftmost slots (tokens.take k) places

/-- A report for each slot but those at `places`; it points at the first token not taken by then. -/
def emptySlots (slots : List Slot) (tokens : List Token) (places : List Nat) : List Diagnostic :=
  (slots.zipIdx.filter fun (_, j) => j ∉ places).map fun (slot, j) =>
    ⟨.ofHead (tokens.drop (places.countP (· < j))), .unfilled slot⟩

def Token.FitsSlot (t : Token) : Prop := ∃ slot : Slot, t.kind = slot.kind

theorem Token.FitsSlot.kind_ne_opcode {t : Token} (fits : t.FitsSlot) : t.kind ≠ .opcode := by
  obtain ⟨slot, same⟩ := fits
  rw [same]
  exact slot.kind_ne_opcode

theorem Token.FitsSlot.kind_ne_comment {t : Token} (fits : t.FitsSlot) : t.kind ≠ .comment := by
  obtain ⟨slot, same⟩ := fits
  rw [same]
  cases slot <;> decide

def Token.Kind.isOperand : Token.Kind → Bool
  | .register => true
  | .constant => true
  | .opcode | .comma | .arrow | .comment => false

def operandsOf (slots : List Slot) (taken : List Token) : Option (List String) :=
  if taken.countP (·.kind.isOperand) = slots.countP Slot.isOperand then
    some ((taken.filter (·.kind.isOperand)).map Token.lexeme)
  else none

theorem exists_map_succ {places : List Nat} (positive : ∀ j ∈ places, 0 < j) :
    ∃ lower : List Nat, places = lower.map (· + 1) := by
  refine ⟨places.map (· - 1), ?_⟩
  rw [List.map_map]
  conv_lhs => rw [← List.map_id places]
  apply List.map_congr_left
  intro j member
  exact (Nat.sub_add_cancel (positive j member)).symm

namespace Matching

variable {slot : Slot} {slots : List Slot} {t : Token} {taken : List Token} {places : List Nat}

theorem shifted_iff :
    Matching (slot :: slots) taken (places.map (· + 1)) ↔ Matching slots taken places := by
  refine ⟨fun m => ⟨?_, ?_⟩, fun m => ⟨?_, ?_⟩⟩
  · simpa [List.pairwise_map] using m.increasing
  · simpa [List.forall₂_map_left_iff] using m.kinds
  · simpa [List.pairwise_map] using m.increasing
  · simpa [List.forall₂_map_left_iff] using m.kinds

theorem tail {place : Nat} (m : Matching slots (t :: taken) (place :: places)) :
    Matching slots taken places :=
  ⟨m.increasing.of_cons, (List.forall₂_cons.mp m.kinds).2⟩

theorem filled (same : t.kind = slot.kind) (m : Matching slots taken places) :
    Matching (slot :: slots) (t :: taken) (0 :: places.map (· + 1)) := by
  have shifted : Matching (slot :: slots) taken (places.map (· + 1)) := shifted_iff.mpr m
  refine ⟨.cons ?_ shifted.increasing, .cons (by simp [same]) shifted.kinds⟩
  intro j member
  obtain ⟨i, -, rfl⟩ := List.mem_map.mp member
  exact Nat.succ_pos i

/-- The first slot is taken by the first token, or by none. -/
theorem cons_cases (m : Matching (slot :: slots) taken places) :
    (∃ t later others, taken = t :: later ∧ t.kind = slot.kind ∧
      places = 0 :: others.map (· + 1) ∧ Matching slots later others) ∨
    ∃ others, places = others.map (· + 1) ∧ Matching slots taken others := by
  -- Places increase, so only the first of them can be that of the first slot.
  cases places with
  | nil => exact .inr ⟨[], rfl, shifted_iff.mp m⟩
  | cons place places =>
    cases taken with
    | nil => cases m.kinds
    | cons t later =>
      obtain ⟨after, increasing⟩ := List.pairwise_cons.mp m.increasing
      obtain ⟨kind, kinds⟩ := List.forall₂_cons.mp m.kinds
      cases place with
      | zero =>
        obtain ⟨others, rfl⟩ := exists_map_succ after
        have same : t.kind = slot.kind := by simpa using kind.symm
        exact .inl ⟨t, later, others, rfl, same, rfl, shifted_iff.mp m.tail⟩
      | succ place =>
        have positive : ∀ j ∈ (place + 1) :: places, 0 < j := by
          intro j member
          rcases List.mem_cons.mp member with rfl | member
          · exact Nat.succ_pos place
          · exact Nat.zero_lt_of_lt (after j member)
        obtain ⟨others, shifted⟩ := exists_map_succ positive
        rw [shifted] at m ⊢
        exact .inr ⟨others, rfl, shifted_iff.mp m⟩

end Matching

namespace Leftmost

variable {slot : Slot} {slots : List Slot} {t : Token} {taken : List Token} {places : List Nat}

theorem unique {others : List Nat} (left : Leftmost slots taken places)
    (right : Leftmost slots taken others) : places = others := by
  have below := left.least others right.toMatching
  have above := right.least places left.toMatching
  clear left right
  induction below with
  | nil => rfl
  | cons le below ih =>
    obtain ⟨ge, above⟩ := List.forall₂_cons.mp above
    rw [Nat.le_antisymm le ge, ih above]

theorem filled (same : t.kind = slot.kind) (left : Leftmost slots taken places) :
    Leftmost (slot :: slots) (t :: taken) (0 :: places.map (· + 1)) := by
  refine ⟨left.toMatching.filled same, ?_⟩
  intro others m
  rcases m.cons_cases with ⟨_, _, later, whole, -, rfl, behind⟩ | ⟨later, rfl, behind⟩
  · obtain ⟨rfl, rfl⟩ := List.cons.inj whole
    refine .cons (Nat.le_refl 0) ?_
    simpa [List.forall₂_map_left_iff, List.forall₂_map_right_iff] using left.least later behind
  · cases later with
    | nil => cases behind.kinds
    | cons place later =>
      refine .cons (Nat.zero_le _) ?_
      simpa [List.forall₂_map_left_iff, List.forall₂_map_right_iff] using
        left.least later behind.tail

theorem skipped (other : ∀ t ∈ taken.head?, t.kind ≠ slot.kind) (left : Leftmost slots taken places) :
    Leftmost (slot :: slots) taken (places.map (· + 1)) := by
  refine ⟨Matching.shifted_iff.mpr left.toMatching, ?_⟩
  intro others m
  rcases m.cons_cases with ⟨t, _, _, rfl, same, -, -⟩ | ⟨later, rfl, behind⟩
  · exact absurd same (other t rfl)
  · simpa [List.forall₂_map_left_iff, List.forall₂_map_right_iff] using left.least later behind

end Leftmost

section Placeable

variable {slot : Slot} {slots : List Slot} {t : Token} {tokens rest : List Token}

theorem isGreatest_placeable_nil (tokens : List Token) : IsGreatest (Placeable [] tokens) 0 := by
  refine ⟨by simp [Placeable], ?_⟩
  intro k placeable
  obtain ⟨bound, kinds⟩ := placeable
  have none : tokens.take k = [] := by simpa using kinds
  have length := congrArg List.length none
  rw [List.length_take_of_le bound] at length
  exact Nat.le_of_eq length

theorem isGreatest_placeable_cons (same : t.kind = slot.kind) {k : Nat}
    (longest : IsGreatest (Placeable slots rest) k) :
    IsGreatest (Placeable (slot :: slots) (t :: rest)) (k + 1) := by
  have succ_mem : ∀ m, m + 1 ∈ Placeable (slot :: slots) (t :: rest) ↔ m ∈ Placeable slots rest := by
    intro m
    simp [Placeable, same]
  refine ⟨(succ_mem k).mpr longest.1, ?_⟩
  intro m placeable
  cases m with
  | zero => exact Nat.zero_le _
  | succ m => exact Nat.succ_le_succ (longest.2 ((succ_mem m).mp placeable))

theorem head_kind_ne_take (other : ∀ t ∈ tokens.head?, t.kind ≠ slot.kind) (k : Nat) :
    ∀ t ∈ (tokens.take k).head?, t.kind ≠ slot.kind := by
  intro t head
  rw [List.head?_take] at head
  split at head
  · cases head
  · exact other t head

theorem placeable_cons_of_head_kind_ne (other : ∀ t ∈ tokens.head?, t.kind ≠ slot.kind) :
    Placeable (slot :: slots) tokens = Placeable slots tokens := by
  ext k
  refine and_congr_right fun _ => ⟨?_, fun kinds => kinds.cons _⟩
  intro kinds
  rcases List.sublist_cons_iff.mp kinds with kinds | ⟨later, whole, -⟩
  · exact kinds
  · obtain ⟨t, rest, taken, same, -⟩ := List.map_eq_cons_iff.mp whole
    have head : t ∈ (tokens.take k).head? := by
      rw [taken]
      rfl
    exact absurd same (head_kind_ne_take other k t head)

end Placeable

namespace Takes

variable {slot : Slot} {slots : List Slot} {t : Token} {tokens rest : List Token} {k : Nat}
  {places : List Nat}

theorem nil (tokens : List Token) : Takes [] tokens 0 [] := by
  refine ⟨isGreatest_placeable_nil tokens, ⟨.nil, .nil⟩, ?_⟩
  intro others m
  cases m.kinds
  exact .nil

theorem filled (same : t.kind = slot.kind) (takes : Takes slots rest k places) :
    Takes (slot :: slots) (t :: rest) (k + 1) (0 :: places.map (· + 1)) :=
  ⟨isGreatest_placeable_cons same takes.longest, takes.leftmost.filled same⟩

theorem skipped (other : ∀ t ∈ tokens.head?, t.kind ≠ slot.kind) (takes : Takes slots tokens k places) :
    Takes (slot :: slots) tokens k (places.map (· + 1)) := by
  refine ⟨?_, takes.leftmost.skipped (head_kind_ne_take other k)⟩
  rw [placeable_cons_of_head_kind_ne other]
  exact takes.longest

theorem unique {m : Nat} {others : List Nat} (left : Takes slots tokens k places)
    (right : Takes slots tokens m others) : k = m ∧ places = others := by
  obtain rfl := left.longest.unique right.longest
  exact ⟨rfl, left.leftmost.unique right.leftmost⟩

theorem length_le (takes : Takes slots tokens k places) : k ≤ tokens.length := takes.longest.1.1

theorem length_places (takes : Takes slots tokens k places) : places.length = k := by
  rw [takes.leftmost.kinds.length_eq, List.length_take_of_le takes.length_le]

theorem fitsSlot (takes : Takes slots tokens k places) : ∀ t ∈ tokens.take k, t.FitsSlot := by
  intro t member
  obtain ⟨slot, -, kind⟩ := List.mem_map.mp (takes.longest.1.2.subset (List.mem_map_of_mem member))
  exact ⟨slot, kind.symm⟩

end Takes

section EmptySlots

variable (slot : Slot) (slots : List Slot) (t : Token) (tokens rest : List Token) (places : List Nat)

theorem succ_mem_shifted (j : Nat) : j + 1 ∈ places.map (· + 1) ↔ j ∈ places := by
  simp

theorem emptySlots_filled :
    emptySlots (slot :: slots) (t :: rest) (0 :: places.map (· + 1)) =
      emptySlots slots rest places := by
  simp [emptySlots, List.zipIdx_cons, List.zipIdx_succ, List.filter_map, Function.comp_def,
    List.countP_map, succ_mem_shifted, -List.mem_map]

theorem emptySlots_skipped :
    emptySlots (slot :: slots) tokens (places.map (· + 1)) =
      ⟨.ofHead tokens, .unfilled slot⟩ :: emptySlots slots tokens places := by
  have first : 0 ∉ places.map (· + 1) := by simp
  simp [emptySlots, List.zipIdx_cons, List.zipIdx_succ, List.filter_map, Function.comp_def,
    List.countP_map, succ_mem_shifted, first, -List.mem_map]

end EmptySlots

section OperandsOf

variable {slot : Slot} {slots : List Slot} {t : Token} {taken : List Token}

theorem Slot.isOperand_eq (slot : Slot) : slot.isOperand = slot.kind.isOperand := by
  cases slot <;> rfl

theorem countP_kind_isOperand (slots : List Slot) :
    (slots.map Slot.kind).countP Token.Kind.isOperand = slots.countP Slot.isOperand := by
  rw [List.countP_map]
  exact List.countP_congr fun slot _ => by rw [Function.comp_apply, slot.isOperand_eq]

theorem operandsOf_filled (same : t.kind = slot.kind) :
    operandsOf (slot :: slots) (t :: taken) =
      if slot.isOperand then (operandsOf slots taken).map (t.lexeme :: ·)
      else operandsOf slots taken := by
  have kind : t.kind.isOperand = slot.isOperand := by rw [same, slot.isOperand_eq]
  by_cases operand : slot.isOperand
  · rw [operand] at kind
    by_cases equal : taken.countP (·.kind.isOperand) = slots.countP Slot.isOperand <;>
      simp [operandsOf, kind, operand, equal]
  · rw [Bool.not_eq_true] at operand
    rw [operand] at kind
    simp [operandsOf, kind, operand]

theorem operandsOf_skipped (kinds : (taken.map Token.kind).Sublist (slots.map Slot.kind)) :
    operandsOf (slot :: slots) taken = if slot.isOperand then none else operandsOf slots taken := by
  have bound : taken.countP (·.kind.isOperand) ≤ slots.countP Slot.isOperand := by
    have counted := kinds.countP_le (p := Token.Kind.isOperand)
    rwa [countP_kind_isOperand, List.countP_map] at counted
  by_cases operand : slot.isOperand
  · have fewer : taken.countP (·.kind.isOperand) ≠ slots.countP Slot.isOperand + 1 := by omega
    simp [operandsOf, operand, fewer]
  · simp [operandsOf, operand]

end OperandsOf

/-- To try each slot in turn, and to leave it empty if the next token is of another kind, fits as many
    tokens as can be. -/
theorem exists_takes (slots : List Slot) (tokens : List Token) :
    ∃ k places, Takes slots tokens k places ∧
      fill slots tokens =
        ⟨operandsOf slots (tokens.take k), emptySlots slots tokens places, tokens.drop k⟩ := by
  induction slots generalizing tokens with
  | nil => exact ⟨0, [], .nil tokens, rfl⟩
  | cons slot slots ih =>
    rcases fill_cons_cases slot slots tokens with ⟨t, rest, rfl, same, step⟩ | ⟨other, step⟩
    · obtain ⟨k, places, takes, filling⟩ := ih rest
      refine ⟨k + 1, _, takes.filled same, ?_⟩
      rw [step, filling, emptySlots_filled, List.take_succ_cons, operandsOf_filled same, Filling.taken]
      split <;> rfl
    · obtain ⟨k, places, takes, filling⟩ := ih tokens
      refine ⟨k, _, takes.skipped other, ?_⟩
      rw [step, filling, emptySlots_skipped, operandsOf_skipped takes.longest.1.2]
      rfl

/-- What an instruction takes is no instruction of its own. -/
theorem Program.exists_taken (t : Token) (rest : List Token) :
    ∃ taken, rest = taken ++ (start t rest).2 ∧ ∀ u ∈ taken, u.FitsSlot := by
  rcases start_cases t rest with ⟨-, step⟩ | ⟨-, -, step⟩ | ⟨op, -, -, step⟩
  · exact ⟨[], by rw [step]; rfl, by simp⟩
  · exact ⟨[], by rw [step]; rfl, by simp⟩
  · obtain ⟨k, places, takes, filling⟩ := exists_takes op.slots rest
    rw [step, filling]
    exact ⟨rest.take k, (List.take_append_drop k rest).symm, takes.fitsSlot⟩

/-- What an instruction takes can be looked at a second time: all of it is misplaced then. -/
theorem Program.exists_second_look (t : Token) (rest : List Token) :
    ∃ taken : List Token, (∀ u ∈ taken, u.FitsSlot) ∧
      ofTokens rest = ⟨[], taken.map Token.misplaced⟩ ++ ofTokens (start t rest).2 := by
  obtain ⟨taken, whole, fits⟩ := exists_taken t rest
  refine ⟨taken, fits, ?_⟩
  conv_lhs => rw [whole]
  exact ofTokens_append_of_plain (fun u held => (fits u held).kind_ne_opcode) _

theorem length_diagnostics_fill (slots : List Slot) (tokens : List Token) :
    (fill slots tokens).diagnostics.length + tokens.length =
      slots.length + (fill slots tokens).rest.length := by
  induction slots generalizing tokens with
  | nil => simp [fill, Filling.done]
  | cons slot slots ih =>
    rcases fill_cons_cases slot slots tokens with ⟨t, rest, rfl, same, step⟩ | ⟨other, step⟩
    · have later := ih rest
      rw [step, Filling.diagnostics_taken, Filling.rest_taken, List.length_cons, List.length_cons]
      omega
    · have later := ih tokens
      rw [step, Filling.diagnostics_missed, Filling.rest_missed, List.length_cons, List.length_cons]
      omega

end Iloc
