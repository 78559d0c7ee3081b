import Iloc.Proofs.Renaming
import Iloc.Proofs.SourceLayout

namespace Iloc

namespace Scan

def renumber (g : Nat → Nat) (s : Scan) : Scan :=
  ⟨s.tokens.map (Token.renumber g), s.diagnostics.map (Diagnostic.renumber g)⟩

instance : Append Scan where
  append s r := ⟨s.tokens ++ r.tokens, s.diagnostics ++ r.diagnostics⟩

theorem append_empty (s : Scan) : s ++ ⟨[], []⟩ = s :=
  (mk.injEq ..).mpr ⟨List.append_nil _, List.append_nil _⟩

theorem append_assoc (s r t : Scan) : s ++ r ++ t = s ++ (r ++ t) :=
  (mk.injEq ..).mpr ⟨List.append_assoc .., List.append_assoc ..⟩

theorem renumber_append (g : Nat → Nat) (s r : Scan) :
    (s ++ r).renumber g = s.renumber g ++ r.renumber g :=
  (mk.injEq ..).mpr ⟨List.map_append, List.map_append⟩

theorem renumber_renumber (g k : Nat → Nat) (s : Scan) :
    (s.renumber g).renumber k = s.renumber fun n => k (g n) := by
  have token : Token.renumber k ∘ Token.renumber g = Token.renumber fun n => k (g n) := rfl
  have diagnostic : Diagnostic.renumber k ∘ Diagnostic.renumber g =
      Diagnostic.renumber fun n => k (g n) := by
    funext ⟨line, problem⟩
    cases line <;> rfl
  rw [renumber, renumber, List.map_map, List.map_map, token, diagnostic]
  rfl

theorem renumber_id (s : Scan) : s.renumber (fun n => n) = s := by
  have token : Token.renumber (fun n => n) = id := rfl
  have diagnostic : Diagnostic.renumber (fun n => n) = id := by
    funext ⟨line, problem⟩
    cases line <;> rfl
  rw [renumber, token, diagnostic, List.map_id, List.map_id]

theorem ofNumbered_append (left right : List (Nat × Segment)) :
    ofNumbered (left ++ right) = ofNumbered left ++ ofNumbered right :=
  (mk.injEq ..).mpr ⟨List.filterMap_append, List.filterMap_append⟩

theorem ofNumbered_renumbered (g : Nat → Nat) (pieces : List (Nat × Segment)) :
    ofNumbered (pieces.map fun (line, s) => (g line, s)) = (ofNumbered pieces).renumber g := by
  induction pieces with
  | nil => rfl
  | cons piece pieces ih =>
    obtain ⟨line, s⟩ := piece
    have token : s.token? (g line) = (s.token? line).map (Token.renumber g) := by
      unfold Segment.token?
      cases s.kind? <;> rfl
    have diagnostic : s.diagnostic? (g line) = (s.diagnostic? line).map (Diagnostic.renumber g) := by
      unfold Segment.diagnostic?
      cases s.problem? <;> rfl
    rw [List.map_cons, ofNumbered_cons, ofNumbered_cons, ih, token, diagnostic]
    simp [renumber, Option.toList_map]

theorem lines_sublist (pieces : List (Nat × Segment)) :
    ((ofNumbered pieces).diagnostics.map Diagnostic.line).Sublist
      (pieces.map fun piece => Line.number piece.1) := by
  induction pieces with
  | nil => exact .slnil
  | cons piece pieces ih =>
    obtain ⟨line, s⟩ := piece
    rw [ofNumbered_cons, List.map_append, List.map_cons, Segment.diagnostic?]
    cases s.problem? with
    | none => exact ih.cons _
    | some problem => exact ih.cons_cons _

end Scan

namespace Segment

theorem count_newline_cons (s : Segment) (segs : List Segment) :
    (s :: segs).count .newline = s.lineBreaks + segs.count .newline := by
  cases s <;> simp [lineBreaks, Nat.add_comm]

theorem map_snd_numbered (line : Nat) (segs : List Segment) :
    (numbered line segs).map Prod.snd = segs := by
  induction segs generalizing line with
  | nil => rfl
  | cons s segs ih => rw [numbered, List.map_cons, ih]

theorem numbered_append (line : Nat) (left right : List Segment) :
    numbered line (left ++ right) =
      numbered line left ++ numbered (line + left.count .newline) right := by
  induction left generalizing line with
  | nil => rfl
  | cons s left ih =>
    rw [List.cons_append, numbered, numbered, ih, count_newline_cons, Nat.add_assoc]
    rfl

theorem numbered_add (line k : Nat) (segs : List Segment) :
    numbered (line + k) segs = (numbered line segs).map fun (l, s) => (l + k, s) := by
  induction segs generalizing line with
  | nil => rfl
  | cons s segs ih =>
    rw [numbered, numbered, List.map_cons, ← ih, Nat.add_right_comm]

theorem ordered_numbered (line : Nat) (segs : List Segment) :
    (numbered line segs).Pairwise (fun p q => p.1 ≤ q.1) ∧
      ∀ p ∈ numbered line segs, line ≤ p.1 ∧ p.1 ≤ line + segs.count .newline := by
  induction segs generalizing line with
  | nil => exact ⟨.nil, by simp [numbered]⟩
  | cons s segs ih =>
    obtain ⟨ordered, bounds⟩ := ih (line + s.lineBreaks)
    rw [numbered, count_newline_cons]
    refine ⟨.cons ?_ ordered, List.forall_mem_cons.mpr ⟨?_, ?_⟩⟩
    · intro p member
      exact Nat.le_trans (Nat.le_add_right ..) (bounds p member).1
    · exact ⟨Nat.le_refl line, Nat.le_add_right ..⟩
    · intro p member
      obtain ⟨low, high⟩ := bounds p member
      omega

/-- White space ends every segment but a comment, which goes on to the end of its line. -/
theorem Fits.append_white {s : Segment} {rest : List Char} (fits : s.Fits rest) {w : Char}
    (white : IsWhite w) (closed : ∀ body, s = .comment body → rest = [] → w = '\n')
    (following : List Char) : s.Fits (rest ++ w :: following) := by
  apply fits.of_head
  cases rest with
  | nil => exact .inr ⟨w, rfl, white.endedBy fun body comment => closed body comment rfl⟩
  | cons c rest => exact .inl rfl

end Segment

namespace Cut

variable {segs more : List Segment} {cs following : List Char}

theorem count_newline (cut : Cut segs cs) : cs.count '\n' = segs.count .newline := by
  induction cut with
  | nil => rfl
  | cons fits _ ih =>
    rw [List.count_append, fits.count_newline, ih, Segment.count_newline_cons]

theorem append_white (cut : Cut segs cs) {w : Char} (white : IsWhite w)
    (closed : ∀ body, segs.getLast? = some (.comment body) → w = '\n') (later : Cut more following) :
    Cut (segs ++ whiteSegment w :: more) (cs ++ w :: following) := by
  induction cut with
  | nil =>
    have cut := Cut.cons (white.fits following) later
    rw [text_whiteSegment] at cut
    exact cut
  | @cons s segs rest fits cut ih =>
    have last : ∀ body, s = .comment body → rest = [] → w = '\n' := by
      rintro body rfl rfl
      obtain rfl := cut.eq_segments
      apply closed body
      rw [segments]
      rfl
    have closedLater : ∀ body, segs.getLast? = some (.comment body) → w = '\n' := by
      intro body comment
      apply closed body
      rw [List.getLast?_cons, comment]
      rfl
    rw [List.append_assoc]
    exact .cons (fits.append_white white last following) (ih closedLater)

end Cut

theorem Scan.ofNumbered_cons_white (line : Nat) (w : Char) (pieces : List (Nat × Segment)) :
    ofNumbered ((line, whiteSegment w) :: pieces) = ofNumbered pieces := by
  unfold whiteSegment
  split <;> rfl

/-- A text is scanned in parts as in one pass: white space after a part ends what stands before it, and
    the lines of the next part are numbered on. -/
theorem scan_append_white (a b : String) {w : Char} (white : IsWhite w)
    (closed : ∀ body, (segments a.toList).getLast? = some (.comment body) → w = '\n') :
    scan (a ++ String.singleton w ++ b) =
      scan a ++ (scan b).renumber (· + (a.toList ++ [w]).count '\n') := by
  have cutA := cut_segments a.toList
  have cut := cutA.append_white white closed (cut_segments b.toList)
  have text : (a ++ String.singleton w ++ b).toList = a.toList ++ w :: b.toList := by simp
  have line : 1 + (segments a.toList).count .newline + (whiteSegment w).lineBreaks =
      1 + (a.toList ++ [w]).count '\n' := by
    rw [← cutA.count_newline, ← (white.fits []).count_newline, text_whiteSegment, List.count_append,
      Nat.add_assoc]
  calc scan (a ++ String.singleton w ++ b)
      = .ofNumbered (Segment.numbered 1 (segments a.toList ++ whiteSegment w :: segments b.toList)) := by
        rw [scan, text, cut.eq_segments]
    _ = scan a ++ .ofNumbered (Segment.numbered (1 + (a.toList ++ [w]).count '\n')
          (segments b.toList)) := by
        rw [Segment.numbered_append, Segment.numbered, Scan.ofNumbered_append,
          Scan.ofNumbered_cons_white, line]
        rfl
    _ = scan a ++ (scan b).renumber (· + (a.toList ++ [w]).count '\n') := by
        rw [Segment.numbered_add, Scan.ofNumbered_renumbered (· + (a.toList ++ [w]).count '\n')]
        rfl

end Iloc
