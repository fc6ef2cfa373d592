import Scorebook.Proofs.Movetext.Tidy

/-!
# Movetext that is written and read again

A line that is written and read again says the same as before (`Text.outline_reread`). The words
that are written are legible, so a scanner finds them again one after the other. What remains is
that the pass over them builds the line they are the words of: each word is one part of the line it
stands in, and a parenthesised line is one part of the line around it (`Outline.exists_takes`).
-/

namespace Scorebook

/-! ## Lexemes that are words -/

/-- These lexemes are these words, each one of them. -/
def Spells (lexemes : List Lexeme) (words : List Word) : Prop :=
  lexemes.map Lexeme.word? = words.map some

theorem Lexeme.eq_opening {lexeme : Lexeme} (h : lexeme.word? = some .opening) :
    ∃ span, lexeme = .token .opening span := by
  unfold Lexeme.word? at h
  split at h
  · cases h
  · exact ⟨_, rfl⟩
  all_goals cases h

theorem Lexeme.eq_closing {lexeme : Lexeme} (h : lexeme.word? = some .closing) :
    ∃ span, lexeme = .token .closing span := by
  unfold Lexeme.word? at h
  split at h
  · cases h
  · cases h
  · exact ⟨_, rfl⟩
  all_goals cases h

namespace Spells

variable {lexemes : List Lexeme} {words words' : List Word} {w : Word}

theorem eq_nil (h : Spells lexemes []) : lexemes = [] :=
  List.map_eq_nil_iff.1 h

/-- The first word is spelled by the first lexeme. -/
theorem of_cons (h : Spells lexemes (w :: words)) :
    ∃ lexeme rest, lexemes = lexeme :: rest ∧ lexeme.word? = some w ∧ Spells rest words :=
  List.map_eq_cons_iff.1 h

/-- Words are spelled part by part. -/
theorem of_append (h : Spells lexemes (words ++ words')) :
    ∃ before rest, lexemes = before ++ rest ∧ Spells before words ∧ Spells rest words' := by
  rw [Spells, List.map_append] at h
  exact List.map_eq_append_iff.1 h

end Spells

/-- The part of a line that the word is, at this place. -/
def Word.part? (span : Span) : Word → Option LinePart
  | comment text => some (.comment text)
  | san text wellFormed => some (.move text span wellFormed)
  | nag n => some (.nag n)
  | opening | closing => none

/-! ## Lexemes read as parts -/

/-- The pass takes these lexemes as these parts of the line it is in, and goes on as `r'`. -/
structure Reader.Takes (strict : Bool) (stop : Nat) (r : Reader) (lexemes : List Lexeme)
    (parts : List LinePart) (r' : Reader) : Prop where
  run : ∀ rest, r.run strict stop (lexemes ++ rest) = r'.run strict stop rest
  current : r'.current = r.current.takeAll parts
  outer : r'.outer = r.outer

namespace Reader

open Descent

variable {strict : Bool} {stop : Nat} {r r' r'' : Reader} {lexemes lexemes' : List Lexeme}
  {ps qs : List LinePart}

theorem Takes.nil (r : Reader) : r.Takes strict stop [] [] r :=
  ⟨fun _ => rfl, rfl, rfl⟩

/-- A reader takes one part after the other. -/
theorem Takes.append (h : r.Takes strict stop lexemes ps r')
    (h' : r'.Takes strict stop lexemes' qs r'') :
    r.Takes strict stop (lexemes ++ lexemes') (ps ++ qs) r'' := by
  refine ⟨?_, ?_, ?_⟩
  · intro rest
    rw [List.append_assoc, h.run, h'.run]
  · rw [h'.current, h.current, LineReader.takeAll_append]
  · rw [h'.outer, h.outer]

/-- A word that is no parenthesis is taken as the part that it is. -/
theorem exists_takes_word (strict : Bool) (stop : Nat) (r : Reader) {lexeme : Lexeme} {w : Word}
    (hword : lexeme.word? = some w) :
    ∃ span r', ∀ part, w.part? span = some part → r.Takes strict stop [lexeme] [part] r' := by
  have hplain {part : LinePart} (lexeme : Lexeme) (hpart : plainPart? lexeme = some part)
      (hopening : ∀ span, lexeme ≠ .token .opening span)
      (hclosing : ∀ span, lexeme ≠ .token .closing span) (hmarker : isMarker lexeme = false) :
      ∃ r', r.Takes strict stop [lexeme] [part] r' := by
    obtain ⟨problems, hstep⟩ :=
      r.run_plain strict stop hopening hclosing fun _ => hmarker
    rw [hpart] at hstep
    exact ⟨_, hstep, rfl, rfl⟩
  cases lexeme with
  | openEnd problem => cases hword
  | comment body text =>
    cases hword
    obtain ⟨r', hread⟩ := hplain (.comment body text) rfl nofun nofun rfl
    exact ⟨body, r', fun _ => by rintro ⟨⟩; exact hread⟩
  | token token span =>
    cases token with
    | opening | closing =>
      cases hword
      exact ⟨span, r, nofun⟩
    | san text wellFormed =>
      cases hword
      obtain ⟨r', hread⟩ := hplain (.token (.san text wellFormed) span) rfl nofun nofun rfl
      exact ⟨span, r', fun _ => by rintro ⟨⟩; exact hread⟩
    | nag nag =>
      cases hword
      obtain ⟨r', hread⟩ := hplain (.token (.nag nag) span) rfl nofun nofun rfl
      exact ⟨span, r', fun _ => by rintro ⟨⟩; exact hread⟩
    | _ => cases hword

/-- Words that are parts whatever their places are taken as those parts. -/
theorem exists_takes_words (strict : Bool) (stop : Nat) (r : Reader) {words : List Word}
    (ps : List LinePart) (hparts : ∀ span, words.map (Word.part? span) = ps.map some)
    (h : Spells lexemes words) :
    ∃ r', r.Takes strict stop lexemes ps r' := by
  induction words generalizing r lexemes ps with
  | nil =>
    obtain rfl : ps = [] := by simpa using (hparts ⟨0, 0⟩).symm
    rw [h.eq_nil]
    exact ⟨r, .nil r⟩
  | cons w words ih =>
    obtain ⟨lexeme, rest, rfl, hword, hrest⟩ := h.of_cons
    obtain ⟨span, r₁, hread⟩ := r.exists_takes_word strict stop hword
    cases ps with
    | nil => cases hparts span
    | cons part ps =>
      have hcons (span : Span) := List.cons.inj (hparts span)
      obtain ⟨r₂, hreadRest⟩ := ih r₁ ps (fun span => (hcons span).2) hrest
      exact ⟨r₂, (hread part (hcons span).1).append hreadRest⟩

/-- A parenthesised line is taken as one part of the line around it. -/
theorem exists_takes_group {opening : Span} (closing : Span)
    (h : (r.enter opening).Takes strict stop lexemes ps r') :
    ∃ r'', r.Takes strict stop (.token .opening opening :: (lexemes ++ [.token .closing closing]))
      [.branch (Descent.line r.opened (oneMore r.line.depth) ⟨opening.stop, closing.start⟩ ps)]
      r'' := by
  obtain ⟨problems, henter⟩ := r.exists_enter_eq opening
  have hclosed : r'.line.close closing.start =
      Descent.line r.opened (oneMore r.line.depth) ⟨opening.stop, closing.start⟩ ps := by
    rw [← LineReader.close_takeAll_new]
    have hcurrent := h.current
    rw [henter] at hcurrent
    exact congrArg (fun c => c.line.close closing.start) hcurrent
  have houter : r'.outer = r.line :: r.outer := by
    rw [h.outer, henter]
  -- The closed line is handed to the line around it, which is the current one again.
  let closed : Reader := { r' with
    line := r.line.addBranch (r'.line.close closing.start), outer := r.outer, number := none }
  refine ⟨closed, ?_, ?_, rfl⟩
  · intro rest
    rw [List.cons_append, List.append_assoc, run_of_step rfl, h.run, List.singleton_append,
      run_of_step (by rw [step?, houter])]
  · show LineReader.mk (r.line.addBranch (r'.line.close closing.start)) none = _
    rw [hclosed]
    rfl

end Reader

/-! ## Lines made of parts -/

namespace Descent

/-- The parts that annotate a move or the start of a line. -/
def annotations (nags : List Nag) (comment : Option String) (branches : List Variation) :
    List LinePart :=
  nags.map .nag ++ comment.toList.map .comment ++ branches.map .branch

variable {glyphs : List Nag} {text : Option String} {variations : List Variation}
  {ps : List LinePart}

theorem isMove_of_mem_annotations :
    ∀ part ∈ annotations glyphs text variations, part.isMove = false := by
  simp only [annotations, List.mem_append, List.mem_map]
  rintro part ((⟨_, -, rfl⟩ | ⟨_, -, rfl⟩) | ⟨_, -, rfl⟩) <;> rfl

theorem stretch_annotations_append (hps : stretch ps = []) :
    stretch (annotations glyphs text variations ++ ps) = annotations glyphs text variations := by
  have hplain : ∀ part ∈ annotations glyphs text variations, (!part.isMove) = true := by
    intro part hpart
    rw [isMove_of_mem_annotations part hpart]
    rfl
  rw [stretch, List.takeWhile_append_of_pos hplain]
  exact (congrArg _ hps).trans (List.append_nil _)

theorem filterMap_annotations {α : Type} (f : LinePart → Option α) :
    (annotations glyphs text variations).filterMap f =
      glyphs.filterMap (fun nag => f (.nag nag)) ++
        text.toList.filterMap (fun comment => f (.comment comment)) ++
        variations.filterMap (fun v => f (.branch v)) := by
  rw [annotations, List.filterMap_append, List.filterMap_append, List.filterMap_map,
    List.filterMap_map, List.filterMap_map]
  rfl

/-- The comment that was put together from comments is a single one now. -/
theorem comment_annotations_append (hps : stretch ps = [])
    (hsome : ∀ comment ∈ text, comment.isEmpty = false) :
    comment (annotations glyphs text variations ++ ps) = text := by
  have hnags : glyphs.filterMap (fun nag => LinePart.comment? (.nag nag)) = [] :=
    List.filterMap_eq_nil_iff.2 fun _ _ => rfl
  have hbranches : variations.filterMap (fun v => LinePart.comment? (.branch v)) = [] :=
    List.filterMap_eq_nil_iff.2 fun _ _ => rfl
  rw [← foldl_joinComment_texts, texts, stretch_annotations_append hps, filterMap_annotations,
    hnags, hbranches, List.nil_append, List.append_nil]
  cases text with
  | none => rfl
  | some comment =>
    have hcomment : LinePart.comment? (.comment comment) = some comment := by
      rw [LinePart.comment?, hsome comment rfl, if_neg Bool.false_ne_true]
    simp only [Option.toList_some, List.filterMap_cons, hcomment]
    rfl

theorem nags_annotations_append (hps : stretch ps = []) :
    nags (annotations glyphs text variations ++ ps) = glyphs := by
  have hcomments : text.toList.filterMap (fun comment => LinePart.nag? (.comment comment)) = [] :=
    List.filterMap_eq_nil_iff.2 fun _ _ => rfl
  have hbranches : variations.filterMap (fun v => LinePart.nag? (.branch v)) = [] :=
    List.filterMap_eq_nil_iff.2 fun _ _ => rfl
  rw [nags, stretch_annotations_append hps, filterMap_annotations, hcomments, hbranches,
    List.append_nil, List.append_nil]
  exact List.filterMap_some

theorem branches_annotations_append (hps : stretch ps = []) :
    branches (annotations glyphs text variations ++ ps) = variations := by
  have hnags : glyphs.filterMap (fun nag => LinePart.branch? (.nag nag)) = [] :=
    List.filterMap_eq_nil_iff.2 fun _ _ => rfl
  have hcomments :
      text.toList.filterMap (fun comment => LinePart.branch? (.comment comment)) = [] :=
    List.filterMap_eq_nil_iff.2 fun _ _ => rfl
  rw [branches, stretch_annotations_append hps, filterMap_annotations, hnags, hcomments,
    List.nil_append, List.nil_append]
  exact List.filterMap_some

theorem moves_append {qs : List LinePart} (hplain : ∀ part ∈ qs, part.isMove = false) (number : Nat)
    (before : List LinePart) :
    moves number before (qs ++ ps) = moves number (qs.reverse ++ before) ps := by
  induction qs generalizing before with
  | nil => rfl
  | cons part qs ih =>
    obtain ⟨hpart, hqs⟩ := List.forall_mem_cons.1 hplain
    rw [List.cons_append, moves_cons hpart, ih hqs, List.reverse_cons, List.append_assoc]
    rfl

/-- A move is made of its own part and those that annotate it. -/
theorem outline_moves_cons (hps : stretch ps = [])
    (hsome : ∀ comment ∈ text, comment.isEmpty = false) (glyphs : List Nag)
    (variations : List Variation) (number : Nat) (before : List LinePart) (san : String)
    (span : Span) (wellFormed : Bool) :
    ∃ before',
      (moves number before (.move san span wellFormed ::
        (annotations glyphs text variations ++ ps))).map Move.outline =
      ⟨san, wellFormed, glyphs, text, variations.map Variation.outline⟩ ::
        (moves (oneMore number) before' ps).map Move.outline := by
  refine ⟨(annotations glyphs text variations).reverse ++ [], ?_⟩
  rw [moves, List.map_cons, Move.outline_eq, moves_append isMove_of_mem_annotations]
  simp only [comment_annotations_append hps hsome, nags_annotations_append hps,
    branches_annotations_append hps]

end Descent

/-! ## Reading an outline -/

theorem isEmpty_of_legible {text : String} (h : (Word.comment text).Legible) :
    text.isEmpty = false := by
  rw [Bool.eq_false_iff]
  intro hempty
  rw [String.isEmpty_iff] at hempty
  subst hempty
  cases h.1.first

mutual

/-- A line whose words are legible is read as parts that make up the line. -/
theorem Outline.exists_takes (strict : Bool) (stop : Nat) (o : Outline) (r : Reader)
    {lexemes : List Lexeme} (hlegible : ∀ w ∈ o.words, w.Legible) (h : Spells lexemes o.words) :
    ∃ ps r', r.Takes strict stop lexemes ps r' ∧
      ∀ id depth span, (Descent.line id depth span ps).outline = o := by
  match o with
  | ⟨comment, ms⟩ =>
    rw [Outline.words] at h hlegible
    obtain ⟨before, rest, rfl, hbefore, hrest⟩ := h.of_append
    obtain ⟨hcomment, hmoves⟩ := List.forall_mem_append.1 hlegible
    obtain ⟨r₁, hreadComment⟩ :=
      r.exists_takes_words strict stop (Descent.annotations [] comment [])
        (fun span => by cases comment <;> rfl) hbefore
    obtain ⟨ps, r₂, hreadMoves, hstretch, houtline⟩ :=
      exists_takes_moves strict stop ms r₁ hmoves hrest
    refine ⟨_, r₂, hreadComment.append hreadMoves, ?_⟩
    intro id depth span
    have hsome : ∀ text ∈ comment, text.isEmpty = false := by
      rintro text rfl
      exact isEmpty_of_legible (hcomment _ List.mem_cons_self)
    rw [Variation.outline_eq, Descent.line]
    simp only [Descent.comment_annotations_append hstretch hsome,
      Descent.moves_append Descent.isMove_of_mem_annotations, houtline]

/-- The moves of a line start with a part of their own, so what stands before them is apart. -/
theorem exists_takes_moves (strict : Bool) (stop : Nat) (ms : List OutlineMove) (r : Reader)
    {lexemes : List Lexeme} (hlegible : ∀ w ∈ movesWords ms, w.Legible)
    (h : Spells lexemes (movesWords ms)) :
    ∃ ps r', r.Takes strict stop lexemes ps r' ∧ Descent.stretch ps = [] ∧
      ∀ number before, (Descent.moves number before ps).map Move.outline = ms := by
  -- The recursion is that of the outline: moves, their branches, the lines in these.
  match ms with
  | [] =>
    rw [movesWords] at h
    rw [h.eq_nil]
    exact ⟨[], r, .nil r, rfl, fun _ _ => rfl⟩
  | ⟨san, wellFormed, glyphs, comment, os⟩ :: ms =>
    rw [movesWords, OutlineMove.words, List.cons_append, ← List.append_assoc] at h hlegible
    -- The word of the move, its glyphs and comment, its branches, and then the moves behind it.
    obtain ⟨lexeme, rest, rfl, hword, hrest⟩ := h.of_cons
    obtain ⟨ofMove, ofMoves, rfl, hofMove, hofMoves⟩ := hrest.of_append
    obtain ⟨marks, ofBranches, rfl, hmarks, hofBranches⟩ := hofMove.of_append
    obtain ⟨hlegibleMove, hlegibleMoves⟩ :=
      List.forall_mem_append.1 (List.forall_mem_cons.1 hlegible).2
    obtain ⟨hlegibleMarks, hlegibleBranches⟩ := List.forall_mem_append.1 hlegibleMove
    obtain ⟨span, r₁, hreadSan⟩ := r.exists_takes_word strict stop hword
    obtain ⟨r₂, hreadMarks⟩ := r₁.exists_takes_words strict stop
      (glyphs.map .nag ++ comment.toList.map .comment)
      (fun span => by cases comment <;> simp [Word.ofComment?, Word.part?, Function.comp_def])
      hmarks
    obtain ⟨vs, r₃, hreadBranches, rfl⟩ :=
      exists_takes_branches strict stop os r₂ hlegibleBranches hofBranches
    obtain ⟨ps, r₄, hreadMoves, hstretch, houtline⟩ :=
      exists_takes_moves strict stop ms r₃ hlegibleMoves hofMoves
    refine ⟨_, r₄, (hreadSan (.move san span wellFormed) rfl).append
      ((hreadMarks.append hreadBranches).append hreadMoves), rfl, ?_⟩
    intro number before
    have hsome : ∀ text ∈ comment, text.isEmpty = false := by
      rintro text rfl
      exact isEmpty_of_legible (hlegibleMarks _ (List.mem_append_right _ List.mem_cons_self))
    obtain ⟨before', hmoves⟩ := Descent.outline_moves_cons hstretch hsome glyphs vs number
      before san span wellFormed
    rw [houtline] at hmoves
    exact hmoves

/-- Parenthesised lines are one part each. -/
theorem exists_takes_branches (strict : Bool) (stop : Nat) (os : List Outline) (r : Reader)
    {lexemes : List Lexeme} (hlegible : ∀ w ∈ branchesWords os, w.Legible)
    (h : Spells lexemes (branchesWords os)) :
    ∃ (vs : List Variation) (r' : Reader),
      r.Takes strict stop lexemes (vs.map .branch) r' ∧ vs.map Variation.outline = os := by
  match os with
  | [] =>
    rw [branchesWords] at h
    rw [h.eq_nil]
    exact ⟨[], r, .nil r, rfl⟩
  | o :: os =>
    rw [branchesWords] at h hlegible
    obtain ⟨opening, behind, rfl, hopening, hbehind⟩ := h.of_cons
    obtain ⟨inner, rest, rfl, hinner, hrest⟩ := hbehind.of_append
    obtain ⟨closing, ofBranches, rfl, hclosing, hofBranches⟩ := hrest.of_cons
    -- A branch is a group, and within it a line is read.
    obtain ⟨hlegibleInner, hlegibleRest⟩ :=
      List.forall_mem_append.1 (List.forall_mem_cons.1 hlegible).2
    obtain ⟨start, rfl⟩ := Lexeme.eq_opening hopening
    obtain ⟨close, rfl⟩ := Lexeme.eq_closing hclosing
    obtain ⟨ps, r₁, hreadInner, houtline⟩ :=
      o.exists_takes strict stop (r.enter start) hlegibleInner hinner
    obtain ⟨r₂, hreadGroup⟩ := Reader.exists_takes_group close hreadInner
    obtain ⟨vs, r₃, hreadRest, rfl⟩ :=
      exists_takes_branches strict stop os r₂ (List.forall_mem_cons.1 hlegibleRest).2 hofBranches
    refine ⟨Descent.line r.opened (oneMore r.line.depth) ⟨start.stop, close.start⟩ ps :: vs, r₃,
      ?_, ?_⟩
    · have hread := hreadGroup.append hreadRest
      rw [List.cons_append, List.append_assoc] at hread
      exact hread
    · rw [List.map_cons, houtline]

end

/-! ## The statement -/

namespace Text

/-- Movetext that is taken as parts outside all parentheses is the line that consists of them. -/
theorem mainLine_of_takes {t : Text} {strict : Bool} {s : Span} {ps : List LinePart} {r : Reader}
    (h : (Reader.start s.start).Takes strict s.stop (t.lexemes s) ps r) :
    (t.score strict s).mainLine = Descent.line 0 0 ⟨s.start, s.stop⟩ ps := by
  have hrun := h.run []
  rw [List.append_nil] at hrun
  have hline : r.line.close s.stop = Descent.line 0 0 ⟨s.start, s.stop⟩ ps := by
    rw [← LineReader.close_takeAll_new]
    exact congrArg (fun current => current.line.close s.stop) h.current
  rw [score, hrun, Reader.run, Reader.mainLine_of_ending h.outer (.inl rfl), hline]

/-- Movetext that spells the legible words of a line has this line in its score. -/
theorem outline_score_of_spells (t : Text) (strict : Bool) (s : Span) {o : Outline}
    (hlegible : ∀ w ∈ o.words, w.Legible) (h : Spells (t.lexemes s) o.words) :
    (t.score strict s).mainLine.outline = o := by
  obtain ⟨ps, r, hread, houtline⟩ := o.exists_takes strict s.stop (Reader.start s.start) hlegible h
  rw [mainLine_of_takes hread, houtline]

theorem upTo_size (bytes : ByteArray) : (ofBytes bytes).upTo bytes.size = ofBytes bytes := by
  simp only [upTo, ofBytes, Nat.min_self]

/-- A text that is written down by itself holds its bytes and is read from its beginning. -/
theorem written_spec (text : String) :
    (ofBytes text.toUTF8).lexemes ⟨0, (ofBytes text.toUTF8).size⟩ =
        (ofBytes text.toUTF8).lexemesAt 0 ∧
      (ofBytes text.toUTF8).holdsAt 0 (utf8 text) = true ∧
      0 + (utf8 text).length = (ofBytes text.toUTF8).size := by
  have hbytes : text.toUTF8 = (utf8 text).toByteArray := (toByteArray_utf8 text).symm
  refine ⟨?_, ?_, ?_⟩
  · show ((ofBytes _).upTo _).lexemesAt 0 = _
    rw [size_ofBytes, upTo_size]
  · rw [hbytes]
    exact holdsAt_ofBytes _
  · rw [Nat.zero_add, size_ofBytes, hbytes, List.size_toByteArray]

/-- Legible words are found again in the text that they are written as. -/
theorem spells_lexemes {text : String} {words : List Word} (hlegible : ∀ w ∈ words, w.Legible)
    (htext : utf8 text = Word.spell false words) :
    Spells ((ofBytes text.toUTF8).lexemes ⟨0, (ofBytes text.toUTF8).size⟩) words := by
  obtain ⟨hlexemes, hheld, hsize⟩ := written_spec text
  rw [htext] at hheld hsize
  rw [hlexemes]
  exact lexemesAt_of_spell hlegible false hheld hsize

/-- Movetext that is written and read again says the same: the same moves in the same lines with the
same glyphs and comments, and the same lines branching from each move in the same order. This needs
valid movetext, and no closing brace in a comment of its tree. -/
theorem outline_reread (t : Text) (strict strict' : Bool) (s : Span)
    (hvalid : (t.slice s).IsValidUTF8)
    (hcomments : ∀ comment ∈ (t.score strict s).mainLine.outline.comments,
      '\x7d' ∉ comment.toList) :
    let written := ofBytes ((t.score strict s).mainLine.write .numeric).toUTF8
    (written.score strict' ⟨0, written.size⟩).mainLine.outline =
      (t.score strict s).mainLine.outline := by
  intro written
  have hlegible : ∀ w ∈ (t.score strict s).mainLine.outline.words, w.Legible := by
    intro w hw
    refine (t.tidy_score strict s hvalid w hw).legible ?_
    rintro text rfl hbrace
    exact hcomments text (Outline.mem_comments hw) (mem_toList_of_mem_utf8 hbrace (by decide))
  exact outline_score_of_spells written strict' _ hlegible
    (spells_lexemes hlegible (Variation.utf8_write _))

/-- Movetext with a variation in front of the first move, a comment behind a variation, an empty
variation, glyphs written behind their moves, a word that is no move and a null move. -/
def scribbled : Text :=
  ofBytes "\x7ba\x7d (\x7bs\x7d d4) e4! \x7bx\x7d (d4 ()) \x7by\x7d Nf3± Zz -- *".toUTF8

/-- The first variation is not written. The comments of the first move are written as one, in front
of its variation. -/
theorem outline_reread_of_scribbled :
    let written := ofBytes "\x7ba\x7d e4 $1 \x7bx y\x7d (d4 ()) Nf3 $16 Zz --".toUTF8
    (scribbled.slice ⟨0, 46⟩).IsValidUTF8 ∧
      (∀ comment ∈ (scribbled.score true ⟨0, 46⟩).mainLine.outline.comments,
        '\x7d' ∉ comment.toList) ∧
      (written.score false ⟨0, written.size⟩).mainLine.outline.words =
        [.comment "a", .san "e4" true, .nag ⟨1⟩, .comment "x y", .opening, .san "d4" true, .opening,
          .closing, .closing, .san "Nf3" true, .nag ⟨16⟩, .san "Zz" false, .san "--" true] := by
  have hvalid : (scribbled.slice ⟨0, 46⟩).IsValidUTF8 := by decide +kernel
  have hcomments : ∀ comment ∈ (scribbled.score true ⟨0, 46⟩).mainLine.outline.comments,
      '\x7d' ∉ comment.toList := by decide +kernel
  refine ⟨hvalid, hcomments, ?_⟩
  have hreread := outline_reread scribbled true false ⟨0, 46⟩ hvalid hcomments
  have hwritten : (scribbled.score true ⟨0, 46⟩).mainLine.write .numeric =
      "\x7ba\x7d e4 $1 \x7bx y\x7d (d4 ()) Nf3 $16 Zz --" := by
    decide +kernel
  rw [hwritten] at hreread
  rw [hreread]
  decide +kernel

end Text

end Scorebook
