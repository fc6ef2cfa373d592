import Scorebook.Proofs.Movetext.Rereading
import Scorebook.Proofs.Movetext.Wording

/-!
# Lines with words for their glyphs

Where a format describes a glyph, the words are read as moves and variations of their own, so a line
that is written with them is another line when it is read again. Still all comments and all moves
are stored in the order in which they are read (`Text.retains_score_of_glossed`). A description
stands directly behind its move and has no comments of its own, so the comment behind it goes to its
last word as the only one, in front of everything that branches from there.
-/

namespace Scorebook

/-! ## Comments and moves in order -/

def Word.comment? : Word → Option String
  | .comment text => some text
  | _ => none

/-- A move as written, and whether it is in algebraic notation. -/
def Word.san? : Word → Option (String × Bool)
  | .san text wellFormed => some (text, wellFormed)
  | _ => none

/-- The moves of a line and of all that branches from it, in the order they are written. -/
def Outline.sans (o : Outline) : List (String × Bool) :=
  o.words.filterMap Word.san?

/-- The words have the comments of the lexemes and the moves of the lexemes, each in order. -/
structure Retains (words : List Word) (lexemes : List Lexeme) : Prop where
  comments : words.filterMap Word.comment? = lexemes.filterMap Lexeme.comment?
  sans : words.filterMap Word.san? = lexemes.filterMap Lexeme.san?

/-- A lexeme that is a word has the comment and the move of the word. -/
theorem Lexeme.same_of_word? {lexeme : Lexeme} {w : Word} (h : lexeme.word? = some w) :
    lexeme.comment? = w.comment? ∧ lexeme.san? = w.san? := by
  unfold word? at h
  split at h <;> cases h <;> exact ⟨rfl, rfl⟩

namespace Retains

variable {words words' : List Word} {w : Word} {lexemes lexemes' : List Lexeme} {lexeme : Lexeme}

/-- Nothing retains nothing. -/
theorem nil : Retains [] [] :=
  ⟨rfl, rfl⟩

/-- What is retained is retained part by part. -/
theorem append (h : Retains words lexemes) (h' : Retains words' lexemes') :
    Retains (words ++ words') (lexemes ++ lexemes') := by
  constructor
  · rw [List.filterMap_append, List.filterMap_append, h.comments, h'.comments]
  · rw [List.filterMap_append, List.filterMap_append, h.sans, h'.sans]

/-- A word is retained by its lexeme. -/
theorem cons (h : Retains words lexemes) (hlexeme : lexeme.word? = some w) :
    Retains (w :: words) (lexeme :: lexemes) := by
  obtain ⟨hcomment, hsan⟩ := Lexeme.same_of_word? hlexeme
  constructor
  · rw [List.filterMap_cons, List.filterMap_cons, hcomment, h.comments]
  · rw [List.filterMap_cons, List.filterMap_cons, hsan, h.sans]

/-- What is neither a comment nor a move need not be said. -/
theorem of_nothing (hcomment : lexeme.comment? = none) (hsan : lexeme.san? = none) :
    Retains [] [lexeme] := by
  constructor
  · rw [List.filterMap_cons_none hcomment]
    rfl
  · rw [List.filterMap_cons_none hsan]
    rfl

/-- Glyphs are neither comments nor moves. -/
theorem glyphs (nags : List Nag) : Retains (nags.map .nag) [] :=
  ⟨List.filterMap_eq_nil_iff.2 (List.forall_mem_map.2 fun _ _ => rfl),
    List.filterMap_eq_nil_iff.2 (List.forall_mem_map.2 fun _ _ => rfl)⟩

/-- Parentheses are neither comments nor moves. -/
theorem group (opening closing : Span) (h : Retains words lexemes) :
    Retains words (.token .opening opening :: (lexemes ++ [.token .closing closing])) := by
  constructor
  · rw [List.filterMap_cons_none rfl, List.filterMap_append, h.comments]
    exact (List.append_nil _).symm
  · rw [List.filterMap_cons_none rfl, List.filterMap_append, h.sans]
    exact (List.append_nil _).symm

/-- Lexemes that spell words retain them. -/
theorem of_spells (h : Spells lexemes words) : Retains words lexemes := by
  induction words generalizing lexemes with
  | nil =>
    rw [h.eq_nil]
    exact .nil
  | cons w words ih =>
    obtain ⟨lexeme, rest, rfl, hword, hrest⟩ := h.of_cons
    exact (ih hrest).cons hword

end Retains

/-! ## Lexemes with words for glyphs -/

/-- These lexemes are these words, with a description of each glyph that the format describes. -/
inductive Glossed (format : NagFormat) : List Lexeme → List Word → Prop
  | nil : Glossed format [] []
  | word {lexeme : Lexeme} {w : Word} {rest : List Lexeme} {words : List Word}
    (hword : lexeme.word? = some w) (hglyph : ∀ nag, w ≠ .nag nag) (h : Glossed format rest words) :
    Glossed format (lexeme :: rest) (w :: words)
  | glyph {lexemes rest : List Lexeme} {nag : Nag} {words : List Word} (hwording : Wording lexemes)
    (hsans : lexemes.filterMap Lexeme.san? = [] ↔ ¬nag.DescribedIn format)
    (h : Glossed format rest words) : Glossed format (lexemes ++ rest) (.nag nag :: words)

namespace Glossed

variable {format : NagFormat} {lexemes : List Lexeme} {w : Word} {words words' : List Word}

/-- A word that is no glyph is glossed by its own lexeme. -/
theorem of_cons (h : Glossed format lexemes (w :: words)) (hglyph : ∀ nag, w ≠ .nag nag) :
    ∃ lexeme rest, lexemes = lexeme :: rest ∧ lexeme.word? = some w ∧
      Glossed format rest words := by
  cases h with
  | word hword _ h => exact ⟨_, _, rfl, hword, h⟩
  | glyph => exact absurd rfl (hglyph _)

/-- Words are glossed part by part. -/
theorem of_append (h : Glossed format lexemes (words ++ words')) :
    ∃ before rest, lexemes = before ++ rest ∧ Glossed format before words ∧
      Glossed format rest words' := by
  induction words generalizing lexemes with
  | nil => exact ⟨[], lexemes, rfl, .nil, h⟩
  | cons w words ih =>
    cases h with
    | word hword hglyph h =>
      obtain ⟨before, rest, rfl, hbefore, hrest⟩ := ih h
      exact ⟨_ :: before, rest, rfl, .word hword hglyph hbefore, hrest⟩
    | glyph hwording hsans h =>
      obtain ⟨before, rest, rfl, hbefore, hrest⟩ := ih h
      exact ⟨_ ++ before, rest, (List.append_assoc ..).symm, .glyph hwording hsans hbefore, hrest⟩

/-- A comment is one lexeme. -/
theorem spells_comment {text : Option String} (h : Glossed format lexemes (Word.ofComment? text)) :
    Spells lexemes (Word.ofComment? text) := by
  cases text with
  | none =>
    cases h
    rfl
  | some text =>
    obtain ⟨lexeme, rest, rfl, hword, hrest⟩ := h.of_cons nofun
    cases hrest
    exact congrArg (fun w => [w]) hword

/-- Descriptions have no comments. -/
theorem comments (h : Glossed format lexemes words) :
    lexemes.filterMap Lexeme.comment? = words.filterMap Word.comment? := by
  induction h with
  | nil => rfl
  | word hword _ _ ih =>
    rw [List.filterMap_cons, List.filterMap_cons, (Lexeme.same_of_word? hword).1, ih]
  | glyph hwording _ _ ih =>
    rw [List.filterMap_append, hwording.comments, List.nil_append, ih]
    rfl

/-- The moves are there, whatever the descriptions add. -/
theorem sublist_sans (h : Glossed format lexemes words) :
    (words.filterMap Word.san?).Sublist (lexemes.filterMap Lexeme.san?) := by
  induction h with
  | nil => exact List.Sublist.refl []
  | @word _ w _ _ hword _ _ ih =>
    rw [List.filterMap_cons, List.filterMap_cons, (Lexeme.same_of_word? hword).2]
    cases w.san? with
    | none => exact ih
    | some san => exact ih.cons_cons san
  | glyph _ _ _ ih =>
    rw [List.filterMap_append]
    exact List.sublist_append_of_sublist_right ih

/-- The moves are all there is exactly if no glyph is described. -/
theorem sans_eq_iff (h : Glossed format lexemes words) :
    lexemes.filterMap Lexeme.san? = words.filterMap Word.san? ↔
      ∀ nag, Word.nag nag ∈ words → ¬nag.DescribedIn format := by
  -- By induction on the words: only a glyph can put more moves between the others.
  induction h with
  | nil => exact iff_of_true rfl nofun
  | @word _ w _ words hword hglyph _ ih =>
    have hmem (nag : Nag) : Word.nag nag ∈ w :: words ↔ Word.nag nag ∈ words := by
      simp [(hglyph nag).symm]
    rw [List.filterMap_cons, List.filterMap_cons, (Lexeme.same_of_word? hword).2]
    simp only [hmem, ← ih]
    cases w.san? with
    | none => exact Iff.rfl
    | some san => exact List.cons_inj_right san
  | @glyph lexemes rest nag words _ hsans h ih =>
    rw [List.filterMap_append, List.filterMap_cons_none rfl]
    -- A glyph that is described leaves its letters as moves, so there are too many.
    by_cases hdescribed : nag.DescribedIn format
    · refine iff_of_false ?_ fun hnone => hnone nag List.mem_cons_self hdescribed
      intro heq
      have hlength := congrArg List.length heq
      have hle := h.sublist_sans.length_le
      have := List.length_pos_iff.2 (mt hsans.1 (not_not_intro hdescribed))
      rw [List.length_append] at hlength
      omega
    · rw [hsans.2 hdescribed, List.nil_append, ih]
      simp [hdescribed]

end Glossed

/-! ## Parts in order -/

/-- What the part says in its line. -/
def LinePart.words : LinePart → List Word
  | .comment text => [.comment text]
  | .move san _ wellFormed => [.san san wellFormed]
  | .branch v => v.outline.words
  | .number _ | .nag _ => []

namespace Descent

variable {ps : List LinePart} {part : LinePart} {lexemes xs ys : List Lexeme}

/-- What the parts say behind a move: about that move, and then the moves among them. -/
def said (ps : List LinePart) : List Word :=
  Word.ofComment? (comment ps) ++ (branchesWords ((branches ps).map Variation.outline) ++
    movesWords ((moves 1 [] ps).map Move.outline))

/-- What moves say does not depend on where they are counted from. -/
theorem outline_moves (number : Nat) (before ps : List LinePart) :
    (moves number before ps).map Move.outline = (moves 1 [] ps).map Move.outline := by
  have hany (number' : Nat) (before' : List LinePart) :
      (moves number before ps).map Move.outline = (moves number' before' ps).map Move.outline := by
    induction ps generalizing number before number' before' with
    | nil => rfl
    | cons part ps ih =>
      cases part with
      | move san span wellFormed =>
        rw [moves, moves, List.map_cons, List.map_cons, Move.outline_eq, Move.outline_eq]
        exact congrArg _ (ih ..)
      | _ => exact ih ..
  exact hany 1 []

/-- A part that is no comment has no say in the comment of a line. -/
theorem comment_cons (hmove : part.isMove = false) (hnone : part.comment? = none) :
    comment (part :: ps) = comment ps := by
  rw [← foldl_joinComment_texts, ← foldl_joinComment_texts, texts_cons hmove, hnone]
  rfl

/-- A part that says nothing of a move adds nothing. -/
theorem said_cons (hmove : part.isMove = false) (hcomment : part.comment? = none)
    (hbranch : part.branch? = none) : said (part :: ps) = said ps := by
  rw [said, said, comment_cons hmove hcomment, branches_cons hmove, hbranch, moves_cons hmove,
    outline_moves]
  rfl

/-- A move is said in front of what belongs to it. -/
theorem movesWords_cons (number : Nat) (before : List LinePart) (san : String) (span : Span)
    (wellFormed : Bool) (ps : List LinePart) :
    movesWords ((moves number before (.move san span wellFormed :: ps)).map Move.outline) =
      .san san wellFormed :: ((nags ps).map .nag ++ said ps) := by
  rw [moves, List.map_cons, Move.outline_eq, movesWords, OutlineMove.words, outline_moves, said]
  simp only [List.cons_append, List.append_assoc]

/-- A part without comments is said in order. -/
theorem retains_said_cons (part : LinePart) (hpart : Retains part.words xs)
    (hsilent : xs.filterMap Lexeme.comment? = []) (h : Retains (said ps) ys) :
    Retains (said (part :: ps)) (xs ++ ys) := by
  -- By the kinds of parts. A comment is excluded, and all but a branch is written as it stands.
  cases part with
  | comment text =>
    have hcomments := hpart.comments
    rw [hsilent] at hcomments
    cases hcomments
  | number n =>
    rw [said_cons rfl rfl rfl]
    exact hpart.append h
  | nag nag =>
    rw [said_cons rfl rfl rfl]
    exact hpart.append h
  | move san span wellFormed =>
    have hsaid : said (.move san span wellFormed :: ps) =
        [.san san wellFormed] ++ ((nags ps).map .nag ++ said ps) :=
      movesWords_cons 1 [] san span wellFormed ps
    rw [hsaid]
    exact hpart.append ((Retains.glyphs (nags ps)).append h)
  -- A branch comes between the comment of its line and the moves behind it.
  | branch v =>
    have hsaid : said (.branch v :: ps) = Word.ofComment? (comment ps) ++
        (.opening :: (v.outline.words ++ .closing ::
          (branchesWords ((branches ps).map Variation.outline) ++
            movesWords ((moves 1 [] ps).map Move.outline)))) := by
      rw [said, comment_cons rfl rfl, branches_cons rfl, moves_cons rfl, outline_moves]
      simp only [LinePart.branch?, Option.toList_some, List.map_cons, branchesWords,
        List.cons_append, List.append_assoc, List.nil_append]
    have hcomment : (Word.ofComment? (comment ps)).filterMap Word.san? = [] := by
      cases comment ps <;> rfl
    have hcomments : v.outline.words.filterMap Word.comment? = [] :=
      hpart.comments.trans hsilent
    have hsans : v.outline.words.filterMap Word.san? = xs.filterMap Lexeme.san? := hpart.sans
    constructor
    · rw [hsaid, List.filterMap_append (l := xs), hsilent, ← h.comments, said]
      simp [List.filterMap_cons, Word.comment?, hcomments]
    · rw [hsaid, List.filterMap_append (l := xs), ← hsans, ← h.sans, said]
      simp [List.filterMap_cons, Word.san?, hcomment]

/-- The parts that plain tokens are. -/
def plainParts (lexemes : List Lexeme) : List LinePart :=
  lexemes.flatMap fun lexeme => (plainPart? lexeme).toList

/-- A plain token is said in order. -/
theorem retains_said_token {lexeme : Lexeme} (hplain : lexeme.isPlain = true)
    (h : Retains (said ps) ys) :
    Retains (said ((plainPart? lexeme).toList ++ ps)) ([lexeme] ++ ys) := by
  cases lexeme with
  | token token span =>
    cases token with
    | number n => exact retains_said_cons (.number n) ⟨rfl, rfl⟩ rfl h
    | san text wellFormed =>
      exact retains_said_cons (.move text span wellFormed) ⟨rfl, rfl⟩ rfl h
    | nag nag => exact retains_said_cons (.nag nag) ⟨rfl, rfl⟩ rfl h
    | badNag | unexpected => exact (Retains.of_nothing rfl rfl).append h
    | _ => cases hplain
  | _ => cases hplain

/-- Plain tokens are said in order. -/
theorem retains_said_plain (hplain : ∀ lexeme ∈ lexemes, lexeme.isPlain = true)
    (h : Retains (said ps) ys) :
    Retains (said (plainParts lexemes ++ ps)) (lexemes ++ ys) := by
  induction lexemes with
  | nil => exact h
  | cons lexeme lexemes ih =>
    obtain ⟨hlexeme, hplain⟩ := List.forall_mem_cons.1 hplain
    rw [plainParts, List.flatMap_cons, List.append_assoc]
    exact retains_said_token hlexeme (ih hplain)

/-- No line is closed by plain tokens. -/
theorem branches_plain (lexemes : List Lexeme) : branches (plainParts lexemes) = [] := by
  refine List.filterMap_eq_nil_iff.2 fun part hpart => ?_
  obtain ⟨lexeme, -, hlexeme⟩ := List.mem_flatMap.1 ((List.takeWhile_sublist _).subset hpart)
  unfold plainPart? at hlexeme
  split at hlexeme <;> first | (cases List.mem_singleton.1 hlexeme; rfl) | cases hlexeme

/-- A line without variations in front of its first move is all that is said in it. -/
theorem words_line (id depth : Nat) (span : Span) (hps : branches ps = []) :
    (line id depth span ps).outline.words = said ps := by
  rw [line, Variation.outline_eq, Outline.words, said, hps]
  rfl

end Descent

namespace Reader

open Descent

variable {lexemes : List Lexeme}

/-- What is plain is no marker. -/
theorem isMarker_of_isPlain {lexeme : Lexeme} (h : lexeme.isPlain = true) :
    isMarker lexeme = false := by
  unfold isMarker
  split
  · cases h
  · cases h
  · rfl

/-- Plain lexemes are taken one by one. -/
theorem exists_takes_plain (strict : Bool) (stop : Nat) (r : Reader)
    (hplain : ∀ lexeme ∈ lexemes, lexeme.isPlain = true) :
    ∃ r', r.Takes strict stop lexemes (plainParts lexemes) r' := by
  induction lexemes generalizing r with
  | nil => exact ⟨r, .nil r⟩
  | cons lexeme lexemes ih =>
    obtain ⟨hlexeme, hplain⟩ := List.forall_mem_cons.1 hplain
    have hopening : ∀ span, lexeme ≠ .token .opening span := by
      rintro span rfl
      cases hlexeme
    have hclosing : ∀ span, lexeme ≠ .token .closing span := by
      rintro span rfl
      cases hlexeme
    obtain ⟨problems, hstep⟩ :=
      r.run_plain strict stop hopening hclosing fun _ => isMarker_of_isPlain hlexeme
    let taken := r.withLine (r.current.takeAll (plainPart? lexeme).toList) r.opened problems
    have hone : r.Takes strict stop [lexeme] (plainPart? lexeme).toList taken := ⟨hstep, rfl, rfl⟩
    obtain ⟨r', hrest⟩ := ih taken hplain
    exact ⟨r', hone.append hrest⟩

/-- Words are taken as parts that are said in order. -/
theorem exists_takes_wording (strict : Bool) (stop : Nat) (r : Reader) (h : Wording lexemes) :
    ∃ qs r', r.Takes strict stop lexemes qs r' ∧
      ∀ ps ys, Retains (said ps) ys → Retains (said (qs ++ ps)) (lexemes ++ ys) := by
  -- By induction on the wording, a token or a group at a time.
  induction h generalizing r with
  | nil => exact ⟨[], r, .nil r, fun _ _ h => h⟩
  | @token lexeme rest hplain _ ih =>
    have hone : ∀ l ∈ [lexeme], l.isPlain = true := List.forall_mem_singleton.2 hplain
    obtain ⟨r₁, htakes⟩ := r.exists_takes_plain strict stop hone
    obtain ⟨qs, r₂, htakesRest, hretains⟩ := ih r₁
    refine ⟨_, r₂, htakes.append htakesRest, fun ps ys hys => ?_⟩
    rw [List.append_assoc]
    exact retains_said_plain hone (hretains ps ys hys)
  -- A group is read as a branch, whose words are those of the group.
  | @group inner rest opening closing hinner _ ih =>
    obtain ⟨r₁, htakesInner⟩ := (r.enter opening).exists_takes_plain strict stop hinner
    obtain ⟨r₂, htakes⟩ := exists_takes_group closing htakesInner
    obtain ⟨qs, r₃, htakesRest, hretains⟩ := ih r₂
    have hread := htakes.append htakesRest
    rw [List.cons_append, List.append_assoc] at hread
    refine ⟨_, r₃, hread, fun ps ys hys => ?_⟩
    have hinnerRetained : Retains (said (plainParts inner ++ [])) (inner ++ []) :=
      retains_said_plain hinner .nil
    rw [List.append_nil, List.append_nil] at hinnerRetained
    let v := Descent.line r.opened (oneMore r.line.depth) ⟨opening.stop, closing.start⟩
      (plainParts inner)
    have hline : Retains v.outline.words
        (.token .opening opening :: (inner ++ [.token .closing closing])) := by
      rw [words_line _ _ _ (branches_plain inner)]
      exact hinnerRetained.group opening closing
    have hsilent := (Wording.group opening closing hinner .nil).comments
    have hretained := retains_said_cons (.branch v) hline hsilent (hretains ps ys hys)
    simpa using hretained

/-- Glyphs in any format are taken as parts that are said in order. -/
theorem exists_takes_glyphs (strict : Bool) (stop : Nat) (r : Reader) {format : NagFormat}
    {glyphs : List Nag} (h : Glossed format lexemes (glyphs.map .nag)) :
    ∃ qs r', r.Takes strict stop lexemes qs r' ∧
      ∀ ps ys, Retains (said ps) ys → Retains (said (qs ++ ps)) (lexemes ++ ys) := by
  induction glyphs generalizing r lexemes with
  | nil =>
    cases h
    exact ⟨[], r, .nil r, fun _ _ h => h⟩
  | cons nag glyphs ih =>
    cases h with
    | word _ hglyph => exact absurd rfl (hglyph nag)
    | glyph hwording _ h =>
      obtain ⟨qs, r₁, htakes, hretains⟩ := r.exists_takes_wording strict stop hwording
      obtain ⟨qs', r₂, htakesRest, hretainsRest⟩ := ih r₁ h
      refine ⟨_, r₂, htakes.append htakesRest, fun ps ys hys => ?_⟩
      rw [List.append_assoc, List.append_assoc]
      exact hretains _ _ (hretainsRest ps ys hys)

end Reader

/-! ## Reading a line with words for glyphs -/

namespace Descent

variable {text : Option String} {variations : List Variation} {ps : List LinePart}

/-- What annotates a move is said behind it, and then the next moves. -/
theorem said_annotations_append (hps : stretch ps = [])
    (hsome : ∀ comment ∈ text, comment.isEmpty = false) :
    said (annotations [] text variations ++ ps) = Word.ofComment? text ++
      (branchesWords (variations.map Variation.outline) ++
        movesWords ((moves 1 [] ps).map Move.outline)) := by
  rw [said, comment_annotations_append hps hsome, branches_annotations_append hps,
    moves_append isMove_of_mem_annotations, outline_moves]

end Descent

mutual

/-- A line that is read with words for its glyphs keeps its comments and all moves in order. -/
theorem Outline.exists_takes_glossed (strict : Bool) (stop : Nat) (o : Outline) (r : Reader)
    {format : NagFormat} {lexemes : List Lexeme} (hlegible : ∀ w ∈ o.words, w.Legible)
    (h : Glossed format lexemes o.words) :
    ∃ ps r', r.Takes strict stop lexemes ps r' ∧
      ∀ id depth span, Retains (Descent.line id depth span ps).outline.words lexemes := by
  -- The comment of the line is read first, then its moves.
  match o with
  | ⟨comment, ms⟩ =>
    rw [Outline.words] at h hlegible
    obtain ⟨before, rest, rfl, hbefore, hrest⟩ := h.of_append
    obtain ⟨hcomment, hmoves⟩ := List.forall_mem_append.1 hlegible
    obtain ⟨r₁, hreadComment⟩ :=
      r.exists_takes_words strict stop (Descent.annotations [] comment [])
        (fun span => by cases comment <;> rfl) hbefore.spells_comment
    obtain ⟨ps, r₂, hreadMoves, hstretch, hretains⟩ :=
      exists_takes_moves_glossed strict stop ms r₁ hmoves hrest
    refine ⟨_, r₂, hreadComment.append hreadMoves, ?_⟩
    intro id depth span
    have hsome : ∀ text ∈ comment, text.isEmpty = false := by
      rintro text rfl
      exact isEmpty_of_legible (hcomment _ List.mem_cons_self)
    rw [Descent.words_line _ _ _ (Descent.branches_annotations_append hstretch),
      Descent.said_annotations_append hstretch hsome]
    exact (Retains.of_spells hbefore.spells_comment).append hretains

/-- Moves that are glossed are read back with their comments and variations. -/
theorem exists_takes_moves_glossed (strict : Bool) (stop : Nat) (ms : List OutlineMove) (r : Reader)
    {format : NagFormat} {lexemes : List Lexeme} (hlegible : ∀ w ∈ movesWords ms, w.Legible)
    (h : Glossed format lexemes (movesWords ms)) :
    ∃ ps r', r.Takes strict stop lexemes ps r' ∧ Descent.stretch ps = [] ∧
      Retains (movesWords ((Descent.moves 1 [] ps).map Move.outline)) lexemes := by
  match ms with
  | [] =>
    rw [movesWords] at h
    cases h
    exact ⟨[], r, .nil r, rfl, .nil⟩
  | ⟨san, wellFormed, glyphs, comment, os⟩ :: ms =>
    rw [movesWords, OutlineMove.words, List.cons_append, List.append_assoc, List.append_assoc]
      at h hlegible
    -- The word of the move, its glyphs, its comment, its branches, and then the moves behind it.
    obtain ⟨lexeme, rest, rfl, hword, hrest⟩ := h.of_cons nofun
    obtain ⟨ofGlyphs, rest, rfl, hofGlyphs, hrest⟩ := hrest.of_append
    obtain ⟨ofComment, rest, rfl, hofComment, hrest⟩ := hrest.of_append
    obtain ⟨ofBranches, ofMoves, rfl, hofBranches, hofMoves⟩ := hrest.of_append
    simp only [List.forall_mem_cons, List.forall_mem_append] at hlegible
    obtain ⟨-, -, hlegibleComment, hlegibleBranches, hlegibleMoves⟩ := hlegible
    obtain ⟨span, r₁, hreadSan⟩ := r.exists_takes_word strict stop hword
    obtain ⟨qs, r₂, hreadGlyphs, hretainsGlyphs⟩ := r₁.exists_takes_glyphs strict stop hofGlyphs
    obtain ⟨r₃, hreadComment⟩ := r₂.exists_takes_words strict stop (comment.toList.map .comment)
      (fun span => by cases comment <;> rfl) hofComment.spells_comment
    obtain ⟨vs, r₄, hreadBranches, hretainsBranches⟩ :=
      exists_takes_branches_glossed strict stop os r₃ hlegibleBranches hofBranches
    obtain ⟨ps, r₅, hreadMoves, hstretch, hretains⟩ :=
      exists_takes_moves_glossed strict stop ms r₄ hlegibleMoves hofMoves
    have hsome : ∀ text ∈ comment, text.isEmpty = false := by
      rintro text rfl
      exact isEmpty_of_legible (hlegibleComment _ List.mem_cons_self)
    have hannotated : Retains (Descent.said (Descent.annotations [] comment vs ++ ps))
        (ofComment ++ (ofBranches ++ ofMoves)) := by
      rw [Descent.said_annotations_append hstretch hsome]
      exact (Retains.of_spells hofComment.spells_comment).append (hretainsBranches.append hretains)
    -- All that was read is one list of parts, and what it says is what was written.
    refine ⟨.move san span wellFormed :: (qs ++ (Descent.annotations [] comment vs ++ ps)), r₅,
      ?_, rfl, ?_⟩
    · have hread := (hreadSan (.move san span wellFormed) rfl).append (hreadGlyphs.append
        (hreadComment.append (hreadBranches.append hreadMoves)))
      simpa [Descent.annotations] using hread
    · rw [Descent.movesWords_cons]
      exact ((Retains.glyphs _).append (hretainsGlyphs _ _ hannotated)).cons hword

/-- Variations that are glossed are read back one by one. -/
theorem exists_takes_branches_glossed (strict : Bool) (stop : Nat) (os : List Outline) (r : Reader)
    {format : NagFormat} {lexemes : List Lexeme} (hlegible : ∀ w ∈ branchesWords os, w.Legible)
    (h : Glossed format lexemes (branchesWords os)) :
    ∃ (vs : List Variation) (r' : Reader), r.Takes strict stop lexemes (vs.map .branch) r' ∧
      Retains (branchesWords (vs.map Variation.outline)) lexemes := by
  match os with
  | [] =>
    rw [branchesWords] at h
    cases h
    exact ⟨[], r, .nil r, .nil⟩
  -- A branch is a group, and within it a line is read.
  | o :: os =>
    rw [branchesWords] at h hlegible
    obtain ⟨opening, behind, rfl, hopening, hbehind⟩ := h.of_cons nofun
    obtain ⟨inner, rest, rfl, hinner, hrest⟩ := hbehind.of_append
    obtain ⟨closing, ofBranches, rfl, hclosing, hofBranches⟩ := hrest.of_cons nofun
    simp only [List.forall_mem_cons, List.forall_mem_append] at hlegible
    obtain ⟨-, hlegibleInner, -, hlegibleRest⟩ := hlegible
    obtain ⟨start, rfl⟩ := Lexeme.eq_opening hopening
    obtain ⟨close, rfl⟩ := Lexeme.eq_closing hclosing
    obtain ⟨ps, r₁, hreadInner, hretainsInner⟩ :=
      o.exists_takes_glossed strict stop (r.enter start) hlegibleInner hinner
    obtain ⟨r₂, hreadGroup⟩ := Reader.exists_takes_group close hreadInner
    obtain ⟨vs, r₃, hreadRest, hretains⟩ :=
      exists_takes_branches_glossed strict stop os r₂ hlegibleRest hofBranches
    refine ⟨Descent.line r.opened (oneMore r.line.depth) ⟨start.stop, close.start⟩ ps :: vs, r₃,
      ?_, ?_⟩
    · have hread := hreadGroup.append hreadRest
      rw [List.cons_append, List.append_assoc] at hread
      exact hread
    · rw [List.map_cons, branchesWords]
      exact ((hretainsInner ..).append (hretains.cons hclosing)).cons hopening

end

/-- Movetext that is the legible words of a line, with words for its glyphs, has all comments and
moves of it in its score, in order. -/
theorem Text.retains_score_of_glossed (t : Text) (strict : Bool) (s : Span) {format : NagFormat}
    {o : Outline} (hlegible : ∀ w ∈ o.words, w.Legible)
    (h : Glossed format (t.lexemes s) o.words) :
    Retains (t.score strict s).mainLine.outline.words (t.lexemes s) := by
  obtain ⟨ps, r, hread, hretains⟩ :=
    o.exists_takes_glossed strict s.stop (Reader.start s.start) hlegible h
  rw [Text.mainLine_of_takes hread]
  exact hretains ..

end Scorebook
