import Iloc.Proofs.Grammar
import Iloc.Proofs.Matching
import Mathlib.Data.Finset.Card

namespace Iloc

def survivors (gone : Finset Nat) (entries : List (Token × Nat)) : List Token :=
  (entries.filter fun (_, i) => i ∉ gone).map Prod.fst

namespace Token

def without (gone : Finset Nat) (tokens : List Token) : List Token := survivors gone tokens.zipIdx

def numbered (tokens : List Token) : List (Token × Nat) :=
  tokens.zipIdx.filter fun (t, _) => t.kind ≠ .comment

end Token

def losesOperand (gone : Finset Nat) (piece : List (Token × Nat)) : Bool :=
  piece.any fun (t, i) => t.kind.isOperand && i ∈ gone

structure Program.Lacks (count : Nat) (p : Program) : Prop where
  length : p.diagnostics.length = count
  unfilled : ∀ d ∈ p.diagnostics, ∃ slot, d.problem = .unfilled slot

section Survivors

variable {gone : Finset Nat} {slots : List Slot} {taken : List (Token × Nat)}

theorem survivors_append (gone : Finset Nat) (left right : List (Token × Nat)) :
    survivors gone (left ++ right) = survivors gone left ++ survivors gone right := by
  rw [survivors, List.filter_append, List.map_append]
  rfl

theorem survivors_cons_of_notMem {t : Token} {i : Nat} (kept : i ∉ gone) :
    survivors gone ((t, i) :: taken) = t :: survivors gone taken := by
  simp [survivors, kept]

theorem survivors_sublist (gone : Finset Nat) (taken : List (Token × Nat)) :
    (survivors gone taken).Sublist (taken.map Prod.fst) :=
  List.filter_sublist.map _

theorem countP_survivors_add (gone : Finset Nat) (taken : List (Token × Nat)) (p : Token → Bool) :
    (survivors gone taken).countP p + taken.countP (fun (t, i) => p t && i ∈ gone) =
      (taken.map Prod.fst).countP p := by
  induction taken with
  | nil => rfl
  | cons e taken ih =>
    obtain ⟨t, i⟩ := e
    by_cases lost : i ∈ gone <;> cases counted : p t <;>
      simp [survivors, lost, counted] at ih ⊢ <;> omega

theorem length_survivors_add (gone : Finset Nat) (taken : List (Token × Nat)) :
    (survivors gone taken).length + taken.countP (fun (_, i) => i ∈ gone) = taken.length := by
  simpa using countP_survivors_add gone taken fun _ => true

theorem operandsOf_survivors_of_not_loses (kept : losesOperand gone taken = false) :
    operandsOf slots (survivors gone taken) = operandsOf slots (taken.map Prod.fst) := by
  have same : (survivors gone taken).filter (·.kind.isOperand) =
      (taken.map Prod.fst).filter (·.kind.isOperand) := by
    rw [survivors, List.filter_map, List.filter_map, List.filter_filter]
    congr 1
    apply List.filter_congr
    intro e member
    have stays := List.any_eq_false.mp kept e member
    cases operand : e.1.kind.isOperand <;> simp [operand] at stays ⊢
    exact stays
  simp only [operandsOf, List.countP_eq_length_filter, same]

theorem operandsOf_survivors_of_loses (kinds : (taken.map Prod.fst).map Token.kind = slots.map Slot.kind)
    (loses : losesOperand gone taken = true) : operandsOf slots (survivors gone taken) = none := by
  have lost : 0 < taken.countP (fun (t, i) => t.kind.isOperand && i ∈ gone) := by
    rw [List.countP_pos_iff]
    exact List.any_eq_true.mp loses
  have full : (taken.map Prod.fst).countP (·.kind.isOperand) = slots.countP Slot.isOperand := by
    rw [← countP_kind_isOperand, ← kinds, List.countP_map (f := Token.kind)]
    rfl
  have balance := countP_survivors_add gone taken (·.kind.isOperand)
  have fewer : (survivors gone taken).countP (·.kind.isOperand) ≠ slots.countP Slot.isOperand := by
    omega
  rw [operandsOf, if_neg fewer]

/-- Some of the tokens that fill the slots still are taken, all of them. -/
theorem exists_fill_of_sublist {full kept : List Token}
    (kinds : full.map Token.kind = slots.map Slot.kind) (sublist : kept.Sublist full) :
    ∃ places, fill slots kept = ⟨operandsOf slots kept, emptySlots slots kept places, []⟩ := by
  obtain ⟨k, places, takes, filling⟩ := exists_takes slots kept
  have placeable : kept.length ∈ Placeable slots kept := by
    refine ⟨Nat.le_refl _, ?_⟩
    rw [List.take_length, ← kinds]
    exact sublist.map _
  have all : k = kept.length := Nat.le_antisymm takes.length_le (takes.longest.2 placeable)
  rw [all, List.take_length, List.drop_length] at filling
  exact ⟨places, filling⟩

end Survivors

namespace Program.Lacks

variable {count more : Nat} {p q : Program}

theorem append (left : p.Lacks count) (right : q.Lacks more) : (p ++ q).Lacks (count + more) := by
  refine ⟨?_, ?_⟩
  · rw [diagnostics_append, List.length_append, left.length, right.length]
  · intro d member
    rcases List.mem_append.mp member with member | member
    · exact left.unfilled d member
    · exact right.unfilled d member

theorem endingAt (lacks : p.Lacks count) (ending : Line) : (p.endingAt ending).Lacks count := by
  refine ⟨?_, ?_⟩
  · rw [Program.endingAt, List.length_map, lacks.length]
  · intro d member
    obtain ⟨e, held, rfl⟩ := List.mem_map.mp member
    exact lacks.unfilled e held

end Program.Lacks

open Program (ofTokens parse)

theorem unfilled_of_mem_emptySlots {slots : List Slot} {tokens : List Token} {places : List Nat}
    {d : Diagnostic} (member : d ∈ emptySlots slots tokens places) :
    ∃ slot, d.problem = .unfilled slot := by
  obtain ⟨⟨slot, _⟩, -, rfl⟩ := List.mem_map.mp member
  exact ⟨slot, rfl⟩

section Pieces

variable {gone : Finset Nat}

theorem Spells.nodes_of_operandsOf {n : Node} {t : Token} {taken : List Token} {op : Opcode}
    (spells : Spells n (t :: taken)) (names : t.Names op)
    (kinds : taken.map Token.kind = op.slots.map Slot.kind) :
    (((operandsOf op.slots taken).bind (Instruction.ofOperands? op)).map (Node.mk t.line)).toList =
      [n] := by
  obtain ⟨places, filling⟩ := exists_fill_of_sublist kinds (List.Sublist.refl taken)
  have step := Program.start_of_spells spells []
  have nodes := Program.nodes_start_of_names names taken
  rw [List.append_nil] at step
  rw [step, filling] at nodes
  exact nodes.symm

/-- What becomes of one instruction. -/
theorem Spells.ofTokens_survivors {n : Node} {piece : List (Token × Nat)}
    (spells : Spells n (piece.map Prod.fst))
    (opcodes : ∀ e ∈ piece, e.1.kind = .opcode → e.2 ∉ gone) :
    (∀ t ∈ (survivors gone piece).head?, t.kind = .opcode) ∧
      (ofTokens (survivors gone piece)).nodes = (if losesOperand gone piece then [] else [n]) ∧
      (ofTokens (survivors gone piece)).Lacks (piece.countP fun (_, i) => i ∈ gone) := by
  obtain ⟨u, full, whole⟩ := spells.exists_cons
  obtain ⟨⟨t, i⟩, taken, rfl, rfl, rfl⟩ := List.map_eq_cons_iff.mp whole
  obtain ⟨op, names, -, kinds, -⟩ := spells.exists_opcode
  have stays : i ∉ gone := opcodes (t, i) List.mem_cons_self names.1
  have loses : losesOperand gone ((t, i) :: taken) = losesOperand gone taken := by
    simp [losesOperand, stays]
  have count : ((t, i) :: taken).countP (fun (_, i) => decide (i ∈ gone)) =
      taken.countP fun (_, i) => i ∈ gone := by
    simp [stays]
  -- The opcode is kept, so its slots are tried on what is left of the tokens that filled them all.
  obtain ⟨places, filling⟩ := exists_fill_of_sublist kinds (survivors_sublist gone taken)
  have read : ofTokens (t :: survivors gone taken) =
      Program.ofFilling t.line op (fill op.slots (survivors gone taken)) := by
    rw [ofTokens, Program.start_of_names names, filling]
    show _ ++ ofTokens [] = _
    rw [Program.ofTokens_nil, Program.append_empty]
  rw [survivors_cons_of_notMem stays, loses, count, read]
  refine ⟨by simpa using names.1, ?_, ?_, ?_⟩
  · rw [Program.ofFilling, filling]
    cases lost : losesOperand gone taken with
    | false =>
      rw [operandsOf_survivors_of_not_loses lost]
      exact Spells.nodes_of_operandsOf spells names kinds
    | true =>
      rw [operandsOf_survivors_of_loses kinds lost]
      rfl
  · have length := length_diagnostics_fill op.slots (survivors gone taken)
    have balance := length_survivors_add gone taken
    have slots := congrArg List.length kinds
    simp only [filling, List.length_map, List.length_nil] at length slots
    rw [Program.ofFilling, filling]
    show (emptySlots op.slots (survivors gone taken) places).length = _
    omega
  · intro d member
    rw [Program.ofFilling, filling] at member
    exact unfilled_of_mem_emptySlots member

theorem ofTokens_survivors_flatten {nodes : List Node} {pieces : List (List (Token × Nat))}
    (spelled : List.Forall₂ Spells nodes (pieces.map (List.map Prod.fst)))
    (opcodes : ∀ e ∈ pieces.flatten, e.1.kind = .opcode → e.2 ∉ gone) :
    (∀ t ∈ (survivors gone pieces.flatten).head?, t.kind = .opcode) ∧
      (ofTokens (survivors gone pieces.flatten)).nodes =
        ((nodes.zip pieces).filter fun (_, piece) => !losesOperand gone piece).map Prod.fst ∧
      (ofTokens (survivors gone pieces.flatten)).Lacks
        (pieces.flatten.countP fun (_, i) => i ∈ gone) := by
  induction pieces generalizing nodes with
  | nil =>
    cases spelled
    rw [List.flatten_nil, survivors, List.filter_nil, List.map_nil, Program.ofTokens_nil]
    exact ⟨by simp, rfl, rfl, by simp [Program.empty]⟩
  | cons piece pieces ih =>
    cases spelled with
    | @cons n _ nodes _ spells spelled =>
      rw [List.flatten_cons, List.forall_mem_append] at opcodes
      obtain ⟨opens, found, lacks⟩ := spells.ofTokens_survivors opcodes.1
      obtain ⟨opensLater, foundLater, lacksLater⟩ := ih spelled opcodes.2
      -- What is left of the later instructions still opens with an opcode, where reading resumes.
      rw [List.flatten_cons, survivors_append, Program.ofTokens_append opensLater, List.countP_append]
      refine ⟨forall_mem_head?_append opens opensLater, ?_, (lacks.endingAt _).append lacksLater⟩
      · rw [Program.nodes_append, foundLater, Program.endingAt, found]
        cases loses : losesOperand gone piece <;> simp [loses]

end Pieces

theorem exists_pieces {cuts : List (List Token)} {entries : List (Token × Nat)}
    (whole : cuts.flatten = entries.map Prod.fst) :
    ∃ pieces : List (List (Token × Nat)), pieces.flatten = entries ∧
      pieces.map (List.map Prod.fst) = cuts := by
  induction cuts generalizing entries with
  | nil =>
    have none : entries = [] := List.map_eq_nil_iff.mp whole.symm
    exact ⟨[], none.symm, rfl⟩
  | cons cut cuts ih =>
    obtain ⟨piece, later, rfl, rfl, rest⟩ := List.map_eq_append_iff.mp whole.symm
    obtain ⟨pieces, rfl, rfl⟩ := ih rest.symm
    exact ⟨piece :: pieces, rfl, rfl⟩

namespace Token

theorem map_fst_numbered (tokens : List Token) :
    (numbered tokens).map Prod.fst = withoutComments tokens := by
  have positions : tokens.zipIdx.map Prod.fst = tokens := List.zipIdx_map_fst 0 tokens
  conv_rhs => rw [withoutComments, ← positions, List.filter_map]
  rfl

theorem withoutComments_without (gone : Finset Nat) (tokens : List Token) :
    withoutComments (without gone tokens) = survivors gone (numbered tokens) := by
  rw [withoutComments, without, survivors, survivors, numbered, List.filter_map, List.filter_comm]
  rfl

theorem getElem?_of_mem_numbered {tokens : List Token} {e : Token × Nat} (member : e ∈ numbered tokens) :
    tokens[e.2]? = some e.1 :=
  List.mem_zipIdx_iff_getElem?.mp (List.mem_of_mem_filter member)

theorem countP_numbered {gone : Finset Nat} {tokens : List Token}
    (inside : ∀ i ∈ gone, ∃ t, tokens[i]? = some t ∧ t.kind ≠ .comment) :
    (numbered tokens).countP (fun (_, i) => i ∈ gone) = gone.card := by
  have codes : (numbered tokens).countP (fun (_, i) => i ∈ gone) =
      tokens.zipIdx.countP fun (_, i) => i ∈ gone := by
    rw [numbered, List.countP_filter]
    apply List.countP_congr
    intro e member
    have found := List.mem_zipIdx_iff_getElem?.mp member
    simp only [Bool.and_eq_true, decide_eq_true_eq, and_iff_left_iff_imp]
    intro lost
    obtain ⟨t, here, code⟩ := inside e.2 lost
    rw [Option.some.inj (found.symm.trans here)]
    exact code
  have positions : ((List.range' 0 tokens.length).filter (· ∈ gone)).toFinset = gone := by
    ext i
    simp only [List.mem_toFinset, List.mem_filter, decide_eq_true_eq, and_iff_right_iff_imp]
    intro lost
    obtain ⟨t, here, -⟩ := inside i lost
    have bound := (List.getElem?_eq_some_iff.mp here).1
    simp [List.mem_range'_1, bound]
  have distinct : ((List.range' 0 tokens.length).filter (· ∈ gone)).Nodup :=
    List.Nodup.filter _ List.nodup_range'
  calc (numbered tokens).countP (fun (_, i) => i ∈ gone)
      = tokens.zipIdx.countP fun (_, i) => i ∈ gone := codes
    _ = (tokens.zipIdx.map Prod.snd).countP (· ∈ gone) := by rw [List.countP_map]; rfl
    _ = (List.range' 0 tokens.length).countP (· ∈ gone) := by rw [List.zipIdx_map_snd]
    _ = gone.card := by
      rw [List.countP_eq_length_filter, ← List.toFinset_card_of_nodup distinct, positions]

end Token

/-- In a program without diagnostics, any registers, constants, commas and arrows can be deleted: there is
    one diagnostic for each deleted token, of a slot that stays empty, and only the instructions that lost
    an operand lose their nodes. -/
theorem deletions_do_not_cascade (tokens : List Token) (gone : Finset Nat)
    (clean : (parse tokens).diagnostics = [])
    (inside : ∀ i ∈ gone, ∃ t, tokens[i]? = some t ∧
      t.kind ∈ [Token.Kind.register, .constant, .comma, .arrow]) :
    (parse (Token.without gone tokens)).diagnostics.length = gone.card ∧
    (∀ d ∈ (parse (Token.without gone tokens)).diagnostics, ∃ slot, d.problem = .unfilled slot) ∧
    ∃ pieces, pieces.flatten = Token.numbered tokens ∧
      Derivation (Token.withoutComments tokens) (parse tokens).nodes
        (pieces.map (List.map Prod.fst)) ∧
      (parse (Token.without gone tokens)).nodes =
        (((parse tokens).nodes.zip pieces).filter fun (_, piece) =>
          !losesOperand gone piece).map Prod.fst := by
  have code : ∀ i ∈ gone, ∃ t, tokens[i]? = some t ∧ t.kind ≠ .comment := by
    intro i lost
    obtain ⟨t, here, kind⟩ := inside i lost
    exact ⟨t, here, fun comment => by simp [comment] at kind⟩
  have opcodes : ∀ e ∈ Token.numbered tokens, e.1.kind = .opcode → e.2 ∉ gone := by
    intro e member opcode lost
    obtain ⟨t, here, kind⟩ := inside e.2 lost
    rw [← Option.some.inj ((Token.getElem?_of_mem_numbered member).symm.trans here), opcode] at kind
    simp at kind
  obtain ⟨nodes, cuts, derivation⟩ := Program.exists_derivation clean
  have whole : cuts.flatten = (Token.numbered tokens).map Prod.fst := by
    rw [Token.map_fst_numbered, derivation.whole]
  obtain ⟨pieces, flat, rfl⟩ := exists_pieces whole
  have original : (parse tokens).nodes = nodes := congrArg Program.nodes derivation.ofTokens_eq
  rw [← flat] at opcodes
  obtain ⟨-, left, lacks⟩ := ofTokens_survivors_flatten derivation.spelled opcodes
  rw [flat] at left lacks
  rw [Token.countP_numbered code] at lacks
  rw [original, parse, Token.withoutComments_without]
  exact ⟨lacks.length, lacks.unfilled, pieces, flat, derivation, left⟩

def addThenStore : List Token :=
  [⟨1, .opcode, "add"⟩, ⟨1, .register, "r1"⟩, ⟨1, .comma, ","⟩, ⟨1, .register, "r2"⟩, ⟨1, .arrow, "=>"⟩,
    ⟨1, .register, "r3"⟩, ⟨1, .comment, "// sum"⟩, ⟨2, .opcode, "store"⟩, ⟨2, .register, "r3"⟩,
    ⟨2, .arrow, "=>"⟩, ⟨2, .register, "r4"⟩]

/-- Without the comma and the operand after it there is no sum; without its arrow the store stays. -/
theorem deletions_from_addThenStore :
    (parse addThenStore).diagnostics = [] ∧
    (∀ i ∈ ({2, 3, 9} : Finset Nat), ∃ t, addThenStore[i]? = some t ∧
      t.kind ∈ [Token.Kind.register, .constant, .comma, .arrow]) ∧
    (parse (Token.without {2, 3, 9} addThenStore)).diagnostics.length = 3 ∧
    (∀ d ∈ (parse (Token.without {2, 3, 9} addThenStore)).diagnostics,
      ∃ slot, d.problem = .unfilled slot) ∧
    (parse (Token.without {2, 3, 9} addThenStore)).nodes = [⟨2, .access .store "r3" "r4"⟩] := by
  have inside : ∀ i ∈ ({2, 3, 9} : Finset Nat), ∃ t, addThenStore[i]? = some t ∧
      t.kind ∈ [Token.Kind.register, .constant, .comma, .arrow] := by
    simp [addThenStore]
  have sum := @Spells.binary .add ⟨1, .opcode, "add"⟩ ⟨1, .register, "r1"⟩ ⟨1, .comma, ","⟩
    ⟨1, .register, "r2"⟩ ⟨1, .arrow, "=>"⟩ ⟨1, .register, "r3"⟩ ⟨rfl, rfl⟩ rfl rfl rfl rfl rfl
  have store := @Spells.access .store ⟨2, .opcode, "store"⟩ ⟨2, .register, "r3"⟩ ⟨2, .arrow, "=>"⟩
    ⟨2, .register, "r4"⟩ ⟨rfl, rfl⟩ rfl rfl rfl
  have cut : Derivation (Token.withoutComments addThenStore) _ _ :=
    ⟨.cons sum (.cons store .nil), rfl⟩
  have clean : (parse addThenStore).diagnostics = [] := congrArg Program.diagnostics cut.ofTokens_eq
  have nodes : (parse addThenStore).nodes = _ := congrArg Program.nodes cut.ofTokens_eq
  obtain ⟨count, unfilled, pieces, flat, derivation, left⟩ :=
    deletions_do_not_cascade addThenStore {2, 3, 9} clean inside
  -- The tokens have one cut into instructions, so the pieces have its lengths.
  have found : pieces = [(Token.numbered addThenStore).take 6, (Token.numbered addThenStore).drop 6] := by
    have same := congrArg (List.map List.length) (cut.pieces_unique derivation)
    have lengths : pieces.map List.length = [6, 4] := by simpa [Function.comp_def] using same
    rw [List.eq_iff_flatten_eq, flat]
    exact ⟨rfl, lengths⟩
  rw [found, nodes] at left
  exact ⟨clean, inside, count, unfilled, left⟩

end Iloc
