import Scorebook.Proofs.Movetext.Drawing
import Scorebook.Proofs.Movetext.Transparency

/-!
# The numbers of the moves

Moves are numbered in 32 bits, but nothing bounds how many moves a line may have. In the tables of a
movetext a move has the number of its place as long as there is such a number, and from there on all
moves of the line share the last one (`Arena.IsTree.number_eq_iff`). Movetext whose tokens are all
moves is read into one line (`Filler.size_moves_run`), so a row of enough moves (`Text.moveRow`) is
a line that runs out of numbers.
-/

namespace Scorebook

/-- A move is numbered by its place in the list of its line exactly as long as 32 bits can hold that
number. -/
theorem Arena.IsTree.number_eq_iff {a : Arena} (h : a.IsTree) {v i m : Nat} {line : LineNode}
    {node : MoveNode} (hline : a.line? v = some line) (hm : line.moves[i]? = some m)
    (hnode : a.move? m = some node) : node.number = i + 1 ↔ i < lastCount := by
  rw [h.numbered hline hm hnode, oneMore]
  simp only [lastCount]
  omega

/-! ## Movetext of moves alone -/

namespace Filler

variable {f : Filler}

/-- A comment leaves the moves of the current line as they are. -/
theorem line?_comment {line : LineNode} (hline : f.arena.line? f.frame.line = some line)
    (text : String) : ∃ line', (f.comment text).arena.line? f.frame.line = some line' ∧
      line'.moves = line.moves := by
  unfold comment
  split
  · exact ⟨line, hline, rfl⟩
  · split
    · exact ⟨line, hline, rfl⟩
    · refine ⟨{ line with comment := joinComment line.comment text }, ?_, rfl⟩
      rw [Arena.line?_updateLine, if_pos rfl, hline]
      rfl

/-- A comment opens and closes no line. -/
theorem frame_comment (f : Filler) (text : String) :
    (f.comment text).frame = f.frame ∧ (f.comment text).outer = f.outer := by
  unfold comment
  split
  · exact ⟨rfl, rfl⟩
  · split <;> exact ⟨rfl, rfl⟩

/-- A move makes the line that is open longer by one. -/
theorem line?_addMove_frame {line : LineNode} (hline : f.arena.line? f.frame.line = some line)
    (san : String) (span : Span) (wellFormed : Bool) :
    ∃ line', (f.addMove san span wellFormed).arena.line? f.frame.line = some line' ∧
      line'.moves.size = line.moves.size + 1 :=
  ⟨_, by rw [addMove, Arena.line?_addMove hline, if_pos rfl], Array.size_push _⟩

/-- Where no lexeme but comments and moves is taken in, every move goes to the current line. -/
theorem size_moves_run {line : LineNode} (hline : f.arena.line? f.frame.line = some line)
    (houter : f.outer = []) {lexemes : List Lexeme} {n : Nat} {text : String} {wellFormed : Bool}
    (hmoves : lexemes.filterMap Lexeme.bare? =
      List.replicate n (.token (.san text wellFormed) ⟨0, 0⟩)) :
    (f.run lexemes).outer = [] ∧
      ∃ line', (f.run lexemes).arena.line? f.frame.line = some line' ∧
        line'.moves.size = line.moves.size + n := by
  -- By induction on the lexemes: a comment adds no move and each token one.
  induction lexemes generalizing f line n with
  | nil =>
    obtain rfl : n = 0 := by simpa using hmoves.symm
    exact ⟨houter, line, hline, rfl⟩
  | cons lexeme rest ih =>
    cases lexeme with
    | comment body text =>
      obtain ⟨line', hline', hsame⟩ := line?_comment hline text
      obtain ⟨hframe, hsameOuter⟩ := frame_comment f text
      rw [← hframe] at hline'
      rw [run, step?, ← hframe, ← hsame]
      exact ih hline' (hsameOuter.trans houter) hmoves
    | openEnd problem =>
      cases n with
      | zero => cases hmoves
      | succ n => cases hmoves
    | token token span =>
      cases n with
      | zero => cases hmoves
      | succ n =>
        obtain ⟨htoken, hrest⟩ := List.cons.inj hmoves
        cases htoken
        obtain ⟨line', hline', hsize⟩ := line?_addMove_frame hline text span wellFormed
        obtain ⟨hend, line'', hline'', htotal⟩ :=
          ih (f := f.addMove text span wellFormed) hline' houter hrest
        exact ⟨hend, line'', hline'', by omega⟩

end Filler

/-- Movetext whose tokens are all moves has no parenthesis and so no critical problem. -/
theorem Text.not_isCritical_of_moves (t : Text) (strict : Bool) (s : Span) {n : Nat} {text : String}
    {wellFormed : Bool} (hmoves : (t.lexemes s).filterMap Lexeme.bare? =
      List.replicate n (.token (.san text wellFormed) ⟨0, 0⟩)) :
    ∀ problem ∈ (t.score strict s).problems, problem.isCritical = false := by
  -- Whatever stands between the gaps is one and the same move.
  have hlexeme {lexeme bare : Lexeme} (hmem : lexeme ∈ t.lexemes s)
      (hbare : lexeme.bare? = some bare) :
      bare = .token (.san text wellFormed) ⟨0, 0⟩ :=
    List.eq_of_mem_replicate (hmoves ▸ List.mem_filterMap.2 ⟨lexeme, hmem, hbare⟩)
  have htoken {token : Token} {span : Span} (hmem : .token token span ∈ t.lexemes s) :
      token = .san text wellFormed := by
    cases hlexeme hmem rfl
    rfl
  have htaken := Reader.taken_subset true (Reader.start s.start) (t.lexemes s)
  intro problem hproblem
  have hnone : (Reader.start s.start).OpenedBy [] := nofun
  -- A pass notes only what some lexeme gives cause for, and a move gives cause for nothing
  -- critical.
  rcases Reader.notes_pass hnone hproblem with hbefore | hnotes | hadvises
  · exact absurd hbefore (Array.not_mem_empty problem)
  · cases hnotes.mono htaken with
    | openEnd hmem => cases hlexeme hmem rfl
    | @token _ _ kind hmem hkind =>
      cases htoken hmem
      cases kind <;> first | rfl | cases hkind
    | unmatched hmem => cases htoken hmem
    | missing => rfl
  · obtain ⟨before, outcome, marker, rest, extra, -, hsplit, -, -⟩ := hadvises.split
    have hmem : .token (.marker outcome) marker ∈ t.lexemes s := by
      rw [hsplit]
      exact List.mem_append_right _ List.mem_cons_self
    cases htoken hmem

/-! ## A row of moves -/

namespace Text

/-- A row of `n` moves, each written ` x`. -/
def moveRow (n : Nat) : Text :=
  .ofBytes ((List.range (2 * n)).map fun i => if i % 2 = 0 then Byte.space else 0x78).toByteArray

theorem size_moveRow (n : Nat) : (moveRow n).size = 2 * n := by
  rw [moveRow, size_ofBytes, List.size_toByteArray, List.length_map, List.length_range]

/-- Blanks and letters take turns. -/
theorem getElem?_moveRow {n i : Nat} (h : i < 2 * n) :
    (moveRow n)[i]? = some (if i % 2 = 0 then Byte.space else 0x78) := by
  rw [moveRow, getElem?_ofBytes, List.getElem?_map, List.getElem?_range h, Option.map_some]

/-- The blank in front of a move of the row is a gap. -/
theorem gap_stop_moveRow {n i : Nat} (h : i < n) : ((moveRow n).gap (2 * i)).stop = 2 * i + 1 := by
  have hblank : (moveRow n)[2 * i]? = some Byte.space := by
    rw [getElem?_moveRow (by omega), if_pos (by omega)]
  have hletter : (moveRow n)[2 * i + 1]? = some 0x78 := by
    rw [getElem?_moveRow (by omega), if_neg (by omega)]
  rw [gap, gapFrom_of_isBlank hblank (by decide), ← gap, gap_of_not_inGap]
  rw [inGap_of_getElem? hletter]
  rfl

/-- The row ends without a gap. -/
theorem gap_moveRow_end (n : Nat) : (moveRow n).gap (2 * n) = ⟨2 * n, #[], none⟩ :=
  gap_of_not_inGap (inGap_of_size_le (Nat.le_of_eq (size_moveRow n)))

/-- What is left of a row behind any of its moves is a row. -/
theorem separated_moveRow {n i k : Nat} (h : i + k = n) :
    (moveRow n).Separated (2 * i) (List.replicate k [0x78]) := by
  -- By induction on the letters that are left: each stands behind one blank.
  induction k generalizing i with
  | zero =>
    obtain rfl : i = n := h
    exact .nil (by rw [gap_moveRow_end, size_moveRow]) (by rw [gap_moveRow_end])
  | succ k ih =>
    have hletter : (moveRow n)[2 * i + 1]? = some 0x78 := by
      rw [getElem?_moveRow (by omega), if_neg (by omega)]
    have hnext : 2 * i + 1 + [(0x78 : UInt8)].length = 2 * (i + 1) := rfl
    rw [List.replicate_succ]
    refine .cons ?_ ?_ ?_ <;> rw [gap_stop_moveRow (by omega)]
    · rw [holdsAt, hletter]
      rfl
    · rw [hnext, size_moveRow]
      rcases Nat.eq_zero_or_pos k with rfl | hk
      · exact .inl (by omega)
      · rw [gap_stop_moveRow (by omega)]
        exact .inr (Nat.lt_succ_self _)
    · rw [hnext]
      exact ih (by omega)

/-- The tokens of a row of moves. -/
theorem tokens_moveRow (n : Nat) : ((moveRow n).lexemes ⟨0, 2 * n⟩).filterMap Lexeme.bare? =
    List.replicate n (.token (.san "x" false) ⟨0, 0⟩) := by
  have hwhole : ∀ word ∈ List.replicate n [(0x78 : UInt8)], ReadsWhole word := by
    intro word hword
    rw [List.eq_of_mem_replicate hword]
    exact ⟨by decide, by decide +kernel⟩
  have htoken : (readWord [0x78]).1 = .san "x" false := by decide +kernel
  have hall : (moveRow n).upTo (2 * n) = moveRow n := by
    rw [← size_moveRow n, upTo_self]
  have htokens := (separated_moveRow (Nat.zero_add n)).tokens hwhole
  rw [List.map_replicate, htoken] at htokens
  rw [lexemes, hall]
  exact htokens

/-- A row of `n` moves is one line with `n` moves in the tables, and has no critical problem. -/
theorem arena_moveRow (n : Nat) (strict : Bool) :
    (∀ problem ∈ ((moveRow n).score strict ⟨0, 2 * n⟩).problems, problem.isCritical = false) ∧
      ((moveRow n).arena ⟨0, 2 * n⟩).IsTree ∧
      ∃ line, ((moveRow n).arena ⟨0, 2 * n⟩).line? 0 = some line ∧ line.moves.size = n := by
  obtain ⟨houter, line, hline, hsize⟩ :=
    Filler.size_moves_run (f := .start ⟨0, 2 * n⟩) rfl rfl (tokens_moveRow n)
  have harena : (moveRow n).arena ⟨0, 2 * n⟩ =
      ((Filler.start ⟨0, 2 * n⟩).run ((moveRow n).lexemes ⟨0, 2 * n⟩)).arena := by
    -- No line is open in the end, so nothing is left to be closed.
    rw [arena, Filler.finish, houter]
    rfl
  rw [harena]
  exact ⟨not_isCritical_of_moves _ strict _ (tokens_moveRow n),
    ((Filler.grows_start _).run _).tree, line, hline, by rw [hsize]; exact Nat.zero_add n⟩

/-- In a row of `2 ^ 32` moves the last one has the number of the one before it, and not that of its
place. -/
theorem last_number_is_shared :
    (∀ problem ∈ ((moveRow 0x100000000).score true ⟨0, 2 * 0x100000000⟩).problems,
        problem.isCritical = false) ∧
      ∃ line m node, ((moveRow 0x100000000).arena ⟨0, 2 * 0x100000000⟩).line? 0 = some line ∧
        line.moves[0xffffffff]? = some m ∧
        ((moveRow 0x100000000).arena ⟨0, 2 * 0x100000000⟩).move? m = some node ∧
        node.parent = 0 ∧ node.number ≠ 0xffffffff + 1 := by
  obtain ⟨hmatched, htree, line, hline, hsize⟩ := arena_moveRow 0x100000000 true
  -- The number is exact only below the last count, and the move stands there.
  have hlt : 0xffffffff < line.moves.size := by omega
  have hm := Array.getElem?_eq_getElem hlt
  obtain ⟨node, hnode, hparent⟩ := (htree.mem_moves hline).1 (Array.getElem_mem hlt)
  exact ⟨hmatched, line, _, node, hline, hm, hnode, hparent,
    fun heq => Nat.lt_irrefl lastCount ((htree.number_eq_iff hline hm hnode).1 heq)⟩

end Text

end Scorebook
