import Scorebook.Proofs.Movetext.Glosses

/-!
# Comments that are written and read again

Comments come from braces and from behind semicolons, and all are written in braces. There is no way
to write a closing brace inside them, so a comment is read back as it was exactly if there is none
in it (`Text.readsComment_iff`). Otherwise comments survive in every format
(`Text.comments_survive_writing`), and so do the moves where no glyph is described in words.
-/

namespace Scorebook

namespace Text

variable {t : Text} {pos : Nat} {format : NagFormat}

/-! ## Comments in braces -/

/-- What is read in this place is a comment of this text in braces. -/
def ReadsComment (t : Text) (pos : Nat) (text : String) : Prop :=
  t.lexemesAt pos = .comment ⟨pos + 1, pos + 1 + (utf8 text).length⟩ text ::
    t.lexemesAt (pos + 1 + (utf8 text).length + 1)

/-- A comment in braces is read as this comment exactly if no brace closes inside it. -/
theorem readsComment_iff {text : String} (htrimmed : TrimmedBytes (utf8 text))
    (hheld : t.holdsAt pos (utf8 (Word.comment text).text) = true) :
    t.ReadsComment pos text ↔ Byte.closeBrace ∉ utf8 text := by
  constructor
  · intro hread hbrace
    rw [utf8_comment, List.cons_append, holdsAt, Bool.and_eq_true, beq_iff_eq] at hheld
    obtain ⟨i, hi⟩ := List.mem_iff_getElem?.1 hbrace
    have hlt := (List.getElem?_eq_some_iff.1 hi).1
    rw [holdsAt_append, Bool.and_eq_true] at hheld
    have hclosed : t[pos + 1 + i]? = some Byte.closeBrace := holdsAt_iff.1 hheld.2.1 i _ hi
    have hle : t.seek (· == Byte.closeBrace) pos ≤ pos + 1 + i :=
      seek_le_of_match (by omega) hclosed rfl
    -- The first closing brace ends the comment, and it stands in front of the last one.
    rw [ReadsComment, lexemesAt_of_openBrace hheld.1
      (Nat.lt_of_le_of_lt hle (lt_size_of_getElem? hclosed))] at hread
    have hstop := congrArg Span.stop (Lexeme.comment.inj (List.cons.inj hread).1).1
    dsimp only at hstop
    omega
  · intro hclean
    have hlexemes := lexemesAt_of_comment ⟨htrimmed, hclean⟩ hheld
    rw [utf8_comment, List.length_append, List.length_cons, List.length_singleton] at hlexemes
    rw [ReadsComment, hlexemes]
    congr 2
    omega

/-! ## Written lines in any format -/

/-- A legible word is read as itself, and a glyph as what the format has for it. -/
theorem exists_glossed {w : Word} (hlegible : w.Legible)
    (hheld : t.holdsAt pos (utf8 (w.inFormat format).text) = true)
    (hbehind : (w.inFormat format).isOpening = true ∨
      t.SetOff (pos + (utf8 (w.inFormat format).text).length)) :
    ∃ lexemes, t.lexemesAt pos =
        lexemes ++ t.lexemesAt (pos + (utf8 (w.inFormat format).text).length) ∧
      ∀ rest ws, Glossed format rest ws → Glossed format (lexemes ++ rest) (w :: ws) := by
  -- But for a glyph the format does not matter, and a word is read as one lexeme.
  have hword (hsame : w.inFormat format = w) (hglyph : ∀ nag, w ≠ .nag nag) :
      ∃ lexemes, t.lexemesAt pos =
          lexemes ++ t.lexemesAt (pos + (utf8 (w.inFormat format).text).length) ∧
        ∀ rest ws, Glossed format rest ws → Glossed format (lexemes ++ rest) (w :: ws) := by
    rw [hsame] at hheld hbehind ⊢
    obtain ⟨lexeme, hlexeme, hlexemes⟩ :=
      lexemesAt_of_word hlegible hheld (hbehind.imp_right SetOff.wordEnds)
    exact ⟨[lexeme], hlexemes, fun rest ws => .word hlexeme hglyph⟩
  cases w with
  | nag nag =>
    obtain ⟨lexemes, hlexemes, hwording, hsans⟩ :=
      exists_wording_render hheld (hbehind.resolve_left Bool.false_ne_true)
    exact ⟨lexemes, hlexemes, fun rest ws => .glyph hwording hsans⟩
  | _ => exact hword rfl fun _ => Word.noConfusion

/-- Legible words are found again in the text that they are written as, with words for glyphs that
the format describes. -/
theorem glossed_lexemes {text : String} {words : List Word} (hlegible : ∀ w ∈ words, w.Legible)
    (htext : utf8 text = Word.spell false (words.map (Word.inFormat format))) :
    Glossed format ((ofBytes text.toUTF8).lexemes ⟨0, (ofBytes text.toUTF8).size⟩) words := by
  obtain ⟨hlexemes, hheld, hsize⟩ := written_spec text
  rw [htext] at hheld hsize
  rw [hlexemes]
  exact lexemesAt_of_spelled (Word.inFormat format) (Glossed format) .nil
    (fun w hw pos => exists_glossed (hlegible w hw)) false hheld hsize

end Text

/-! ## Lines reachable from a line -/

namespace Variation

variable {v : Variation} {b : Branch}

/-- What goes on to hold from a line to those that branch from it holds of all lines visited. -/
theorem forall_visitFrom {P : Branch → Prop} (hnext : ∀ b, P b → ∀ c ∈ b.next, P c)
    (pending : List Branch) (visited : Array Branch) (hpending : ∀ b ∈ pending, P b)
    (hvisited : ∀ b ∈ visited, P b) : ∀ b ∈ visitFrom pending visited, P b := by
  fun_induction visitFrom pending visited with
  | case1 visited => exact hvisited
  | case2 visited b rest ih =>
    obtain ⟨hb, hrest⟩ := List.forall_mem_cons.1 hpending
    refine ih (List.forall_mem_append.2 ⟨hrest, hnext b hb⟩) ?_
    intro c hc
    rcases Array.mem_push.1 hc with hc | rfl
    · exact hvisited c hc
    · exact hb

/-- What was visited stays visited. -/
theorem visited_subset_visitFrom (pending : List Branch) (visited : Array Branch) :
    ∀ b ∈ visited, b ∈ visitFrom pending visited := by
  fun_induction visitFrom pending visited with
  | case1 visited => exact fun b hb => hb
  | case2 visited b rest ih => exact fun c hc => ih c (Array.mem_push_of_mem b hc)

/-- A visit starts with the line itself. -/
theorem mem_breadthFirst_self (v : Variation) : ⟨v, none⟩ ∈ v.breadthFirst := by
  rw [breadthFirst, visitFrom]
  exact Array.mem_toList_iff.2 (visited_subset_visitFrom _ _ _ Array.mem_push_self)

/-- A line that branches from another one is written as part of it. -/
theorem words_subset_of_mem_next {c : Branch} (hc : c ∈ b.next) :
    c.variation.outline.words ⊆ b.variation.outline.words := by
  obtain ⟨m, hm, hbranch⟩ := List.mem_flatMap.1 hc
  obtain ⟨v, hv, rfl⟩ := List.mem_map.1 hbranch
  intro w hw
  rw [Variation.outline_eq, Outline.words, movesWords_eq_flatMap]
  refine List.mem_append_right _ (List.mem_flatMap.2 ⟨m.outline, List.mem_map_of_mem hm, ?_⟩)
  rw [Move.outline_eq, OutlineMove.words, branchesWords_eq_flatMap]
  refine List.mem_cons_of_mem _ (List.mem_append_right _ (List.mem_append_right _ ?_))
  refine List.mem_flatMap.2 ⟨v.outline, List.mem_map_of_mem hv, ?_⟩
  exact List.mem_cons_of_mem _ (List.mem_append_left _ hw)

/-- All words of a line that is visited are words of the whole. -/
theorem words_subset_of_mem_breadthFirst (hb : b ∈ v.breadthFirst) :
    b.variation.outline.words ⊆ v.outline.words := by
  refine forall_visitFrom (P := fun b => b.variation.outline.words ⊆ v.outline.words)
    (fun b hb c hc => List.Subset.trans (words_subset_of_mem_next hc) hb) [⟨v, none⟩] #[]
    (List.forall_mem_singleton.2 (List.Subset.refl _)) nofun b (Array.mem_toList_iff.1 hb)

end Variation

/-! ## The statement -/

namespace Text

/-- Comments survive being written, with the line they are in or with any line that it leads to. A
comment in braces is read as one comment with exactly its text, wherever it stands, unless a brace
closes inside it. If none does, the comments of the written line are read and stored again one after
the other, whatever the format. So are its moves, and they are all the moves there are exactly if
the format describes no glyph of the line. -/
theorem comments_survive_writing (t : Text) (strict strict' : Bool) (s : Span) (format : NagFormat)
    (hvalid : (t.slice s).IsValidUTF8) {branch : Variation.Branch}
    (hbranch : branch ∈ (t.score strict s).mainLine.breadthFirst) :
    let line := branch.variation.outline
    let written := ofBytes (branch.variation.write format).toUTF8
    let reread := (written.score strict' ⟨0, written.size⟩).mainLine.outline
    (∀ comment ∈ line.comments, ∀ (u : Text) pos,
        u.holdsAt pos (utf8 (Word.comment comment).text) = true →
        (u.ReadsComment pos comment ↔ '\x7d' ∉ comment.toList)) ∧
      ((∀ comment ∈ line.comments, '\x7d' ∉ comment.toList) →
        (written.lexemes ⟨0, written.size⟩).filterMap Lexeme.comment? = line.comments ∧
        reread.comments = line.comments ∧
        line.sans.Sublist reread.sans ∧
        (reread.sans = line.sans ↔
          ∀ nag, Word.nag nag ∈ line.words → ¬nag.DescribedIn format)) := by
  intro line written reread
  -- The comments that a score holds are trimmed, so they are read as they were written.
  have htidy : ∀ w ∈ line.words, w.Tidy := fun w hw =>
    t.tidy_score strict s hvalid w (Variation.words_subset_of_mem_breadthFirst hbranch hw)
  constructor
  · intro comment hcomment u pos hheld
    have htrimmed : TrimmedBytes (utf8 comment) := htidy _ (Outline.comment_mem_words hcomment)
    rw [readsComment_iff htrimmed hheld, mem_utf8_iff (by decide)]
    rfl
  · intro hclean
    -- Without a closing brace in a comment all words can be read back.
    have hlegible : ∀ w ∈ line.words, w.Legible := by
      intro w hw
      refine (htidy w hw).legible ?_
      rintro text rfl hbrace
      exact hclean text (Outline.mem_comments hw) (mem_toList_of_mem_utf8 hbrace (by decide))
    have hglossed : Glossed format (written.lexemes ⟨0, written.size⟩) line.words :=
      glossed_lexemes hlegible (branch.variation.utf8_write_inFormat format)
    have hretains := written.retains_score_of_glossed strict' ⟨0, written.size⟩ hlegible hglossed
    have hsans : reread.sans = (written.lexemes ⟨0, written.size⟩).filterMap Lexeme.san? :=
      hretains.sans
    rw [hsans]
    exact ⟨hglossed.comments, hretains.comments.trans hglossed.comments, hglossed.sublist_sans,
      hglossed.sans_eq_iff⟩

/-- A comment behind a semicolon, which is written in braces, a variation and a symbol. -/
def remarked : Text :=
  ofBytes "e4; says (c)\n(d4 \x7bno\x7d e6!) = *".toUTF8

/-- The line is written `e4 = {says (c)} (d4 {no} e6 !)`, or in full words
`e4 Drawish position {says (c)} (d4 {no} e6 Good move)`. Its comments survive both ways, and its
moves are all the moves there are in the first. -/
theorem comments_survive_writing_of_remarked :
    let line := (remarked.score true ⟨0, 30⟩).mainLine
    let brief := ofBytes (line.write .brief).toUTF8
    let rereadBrief := (brief.score false ⟨0, brief.size⟩).mainLine.outline
    let detailed := ofBytes (line.write .detailed).toUTF8
    let rereadDetailed := (detailed.score true ⟨0, detailed.size⟩).mainLine.outline
    (remarked.slice ⟨0, 30⟩).IsValidUTF8 ∧ ⟨line, none⟩ ∈ line.breadthFirst ∧
      rereadBrief.comments = ["says (c)", "no"] ∧
      rereadBrief.sans = [("e4", true), ("d4", true), ("e6", true)] ∧
      rereadDetailed.comments = ["says (c)", "no"] ∧
      rereadDetailed.sans ≠ [("e4", true), ("d4", true), ("e6", true)] := by
  intro line brief rereadBrief detailed rereadDetailed
  have hvalid : (remarked.slice ⟨0, 30⟩).IsValidUTF8 := by decide +kernel
  have hwords : line.outline.words = [.san "e4" true, .nag ⟨10⟩, .comment "says (c)", .opening,
      .san "d4" true, .comment "no", .san "e6" true, .nag ⟨1⟩, .closing] := by
    decide +kernel
  have hcomments : line.outline.comments = ["says (c)", "no"] := by
    rw [Outline.comments, hwords]
    rfl
  have hsans : line.outline.sans = [("e4", true), ("d4", true), ("e6", true)] := by
    rw [Outline.sans, hwords]
    rfl
  have hclean : ∀ comment ∈ line.outline.comments, '\x7d' ∉ comment.toList := by
    rw [hcomments]
    decide
  have hself := line.mem_breadthFirst_self
  obtain ⟨-, hbrief⟩ := comments_survive_writing remarked true false ⟨0, 30⟩ .brief hvalid hself
  obtain ⟨-, hdetailed⟩ :=
    comments_survive_writing remarked true true ⟨0, 30⟩ .detailed hvalid hself
  obtain ⟨-, hcommentsBrief, -, hsansBrief⟩ := hbrief hclean
  obtain ⟨-, hcommentsDetailed, -, hsansDetailed⟩ := hdetailed hclean
  refine ⟨hvalid, hself, hcommentsBrief.trans hcomments, ?_, hcommentsDetailed.trans hcomments, ?_⟩
  · rw [← hsans]
    refine hsansBrief.2 fun nag hnag => ?_
    simp only [hwords, List.mem_cons, List.not_mem_nil, reduceCtorEq, Word.nag.injEq, false_or,
      or_false] at hnag
    rcases hnag with rfl | rfl <;> decide
  · rw [← hsans]
    exact fun heq => hsansDetailed.1 heq ⟨1⟩ (by simp [hwords]) trivial

/-- A comment behind a semicolon with braces in it. -/
def breakingOut : Text :=
  ofBytes "e4 ; a \x7d e5 \x7b b\n*".toUTF8

/-- The line is written `e4 {a } e5 { b}`, in which there are two comments and two moves. -/
theorem comment_breaks_out :
    let score := breakingOut.score false ⟨0, 17⟩
    let written := ofBytes (score.mainLine.write .numeric).toUTF8
    let reread := (written.score false ⟨0, written.size⟩).mainLine.outline
    (breakingOut.slice ⟨0, 17⟩).IsValidUTF8 ∧ score.problems = [] ∧
      score.mainLine.outline.comments = ["a \x7d e5 \x7b b"] ∧
      score.mainLine.outline.sans = [("e4", true)] ∧
      ¬written.ReadsComment 3 "a \x7d e5 \x7b b" ∧
      reread.comments = ["a", "b"] ∧ reread.sans = [("e4", true), ("e5", true)] := by
  intro score written reread
  have hvalid : (breakingOut.slice ⟨0, 17⟩).IsValidUTF8 := by decide +kernel
  have hquiet : score.problems = [] := by decide +kernel
  have hwords : score.mainLine.outline.words =
      [.san "e4" true, .comment "a \x7d e5 \x7b b"] := by
    decide +kernel
  have hreread : reread.words =
      [.san "e4" true, .comment "a", .san "e5" true, .comment "b"] := by
    decide +kernel
  have htrimmed : TrimmedBytes (utf8 "a \x7d e5 \x7b b") := ⟨by decide, by decide⟩
  refine ⟨hvalid, hquiet, ?_, ?_, ?_, ?_, ?_⟩
  · rw [Outline.comments, hwords]
    rfl
  · rw [Outline.sans, hwords]
    rfl
  · rw [readsComment_iff htrimmed (by decide +kernel)]
    decide
  · rw [Outline.comments, hreread]
    rfl
  · rw [Outline.sans, hreread]
    rfl

end Text

end Scorebook
