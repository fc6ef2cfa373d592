import Scorebook.Movetext.Token
import Scorebook.Proofs.Scanning

/-!
# The lexemes of a text in order

`Text.lexemes` collects lexemes behind those already read. Here they are the lexemes *from* a place:
those of the gap there, the token behind it, and the lexemes from the end of the token on
(`lexemesAt_eq`). It follows that tokens stand in order, each behind the one before, and that a
token which is read as a parenthesis is one (`laidOut_lexemes`).
-/

namespace Scorebook

namespace Text

variable {t : Text} {pos : Nat} {b : UInt8}

/-! ## Lexemes from a place -/

/-- The lexemes from a place to the end of the text. -/
def lexemesAt (t : Text) (pos : Nat) : List Lexeme :=
  (t.lexemesFrom pos #[]).toList

/-- Lexemes that were read before stay in front. -/
theorem lexemesFrom_append (t : Text) (pos : Nat) (before lexemes : Array Lexeme) :
    t.lexemesFrom pos (before ++ lexemes) = before ++ t.lexemesFrom pos lexemes := by
  fun_induction lexemesFrom t pos lexemes generalizing before with
  | case1 pos lexemes gap lexemes' hnone =>
    rw [lexemesFrom]
    split
    · rw [Array.append_assoc]
    · next b hb => rw [hnone] at hb; cases hb
  | case2 pos lexemes gap lexemes' first hfirst read ih =>
    rw [lexemesFrom]
    split
    · next hnone => rw [hfirst] at hnone; cases hnone
    · next b hb =>
      cases hfirst.symm.trans hb
      rw [← ih, ← Array.push_append, Array.append_assoc]

/-- The lexemes from a place are those of the gap there, the token behind the gap and those from the
end of the token. -/
theorem lexemesAt_eq (t : Text) (pos : Nat) :
    t.lexemesAt pos = (t.gapLexemes (t.gap pos)).toList ++
      match t[(t.gap pos).stop]? with
      | none => []
      | some first =>
        let read := t.tokenAt (t.gap pos).stop first
        .token read.1 ⟨(t.gap pos).stop, read.2⟩ :: t.lexemesAt read.2 := by
  rw [lexemesAt, lexemesFrom]
  split
  · next hnone => simp [hnone]
  · next first hfirst =>
    have hsplit := t.lexemesFrom_append (t.tokenAt (t.gap pos).stop first).2
      ((#[] ++ t.gapLexemes (t.gap pos)).push (.token (t.tokenAt (t.gap pos).stop first).1
        ⟨(t.gap pos).stop, (t.tokenAt (t.gap pos).stop first).2⟩)) #[]
    rw [Array.append_empty] at hsplit
    simp only [hsplit]
    simp [hfirst, lexemesAt]

/-! ## One lexeme more -/

/-- Comments that were found before stay in front. -/
theorem gapFrom_append (t : Text) (pos : Nat) (before comments : Array Span) :
    t.gapFrom pos (before ++ comments) =
      { t.gapFrom pos comments with comments := before ++ (t.gapFrom pos comments).comments } := by
  fun_induction gapFrom t pos comments with
  | case1 pos comments hnone =>
    rw [gapFrom]
    split
    · rfl
    · next b hb => rw [hnone] at hb; cases hb
  | case2 pos comments b hb hblank ih =>
    rw [gapFrom_of_getElem? hb, if_pos hblank, ih]
  | case3 pos comments b hb hblank hescape eol heol ih =>
    rw [gapFrom_of_getElem? hb, if_neg hblank, if_pos hescape, if_pos heol, ih]
  | case4 pos comments b hb hblank hescape eol heol =>
    rw [gapFrom_of_getElem? hb, if_neg hblank, if_pos hescape, if_neg heol]
  | case5 pos comments eol hb hblank hescape ih =>
    rw [gapFrom_of_getElem? hb, if_neg hblank, if_neg hescape, if_pos rfl, ← Array.append_push, ih]
  | case6 pos comments b hb hblank hescape hsemicolon hbrace close hclose ih =>
    rw [gapFrom_of_getElem? hb, if_neg hblank, if_neg hescape, if_neg hsemicolon, if_pos hbrace,
      if_pos hclose, ← Array.append_push, ih]
  | case7 pos comments b hb hblank hescape hsemicolon hbrace close hclose =>
    rw [gapFrom_of_getElem? hb, if_neg hblank, if_neg hescape, if_neg hsemicolon, if_pos hbrace,
      if_neg hclose, ← Array.append_push]
  | case8 pos comments b hb hblank hescape hsemicolon hbrace =>
    rw [gapFrom_of_getElem? hb, if_neg hblank, if_neg hescape, if_neg hsemicolon, if_neg hbrace]

theorem toList_gapLexemes_empty (t : Text) (stop : Nat) :
    (t.gapLexemes ⟨stop, #[], none⟩).toList = [] := by
  simp [gapLexemes]

/-- There are no lexemes behind the text. -/
theorem lexemesAt_of_size_le (h : t.size ≤ pos) : t.lexemesAt pos = [] := by
  rw [lexemesAt_eq, gap_of_not_inGap (inGap_of_size_le h), toList_gapLexemes_empty]
  simp only [getElem?_eq_none_iff.2 h]
  rfl

/-- A blank is no lexeme. -/
theorem lexemesAt_of_isBlank (hb : t[pos]? = some b) (hblank : Byte.isBlank b = true) :
    t.lexemesAt pos = t.lexemesAt (pos + 1) := by
  rw [lexemesAt_eq, lexemesAt_eq t (pos + 1), gap, gapFrom_of_isBlank hb hblank]
  rfl

/-- A closed comment is one lexeme. -/
theorem lexemesAt_of_openBrace (hb : t[pos]? = some Byte.openBrace)
    (hclose : t.seek (· == Byte.closeBrace) pos < t.size) :
    t.lexemesAt pos =
      .comment ⟨pos + 1, t.seek (· == Byte.closeBrace) pos⟩
        (t.readTrimmed ⟨pos + 1, t.seek (· == Byte.closeBrace) pos⟩) ::
      t.lexemesAt (t.seek (· == Byte.closeBrace) pos + 1) := by
  have hgap : t.gap pos =
      { t.gap (t.seek (· == Byte.closeBrace) pos + 1) with
        comments := #[⟨pos + 1, t.seek (· == Byte.closeBrace) pos⟩] ++
          (t.gap (t.seek (· == Byte.closeBrace) pos + 1)).comments } := by
    have hescape : (Byte.openBrace == Byte.percent && t.atLineStart pos) = false := rfl
    rw [gap, gapFrom_of_getElem? hb, if_neg (by decide), hescape, if_neg Bool.false_ne_true,
      if_neg (by decide), if_pos (by decide), if_pos hclose]
    exact gapFrom_append t _ #[⟨pos + 1, t.seek (· == Byte.closeBrace) pos⟩] #[]
  rw [lexemesAt_eq, hgap, lexemesAt_eq t (t.seek (· == Byte.closeBrace) pos + 1)]
  simp [gapLexemes]

/-- Where there is no gap the next lexeme is a token. -/
theorem lexemesAt_of_not_inGap (hb : t[pos]? = some b) (hgap : t.inGap pos = false) :
    t.lexemesAt pos =
      .token (t.tokenAt pos b).1 ⟨pos, (t.tokenAt pos b).2⟩ :: t.lexemesAt (t.tokenAt pos b).2 := by
  rw [lexemesAt_eq, gap_of_not_inGap hgap, toList_gapLexemes_empty]
  simp only [hb]
  rfl

/-! ## Tokens -/

/-- What is read as a move is a move, well formed or not. -/
theorem exists_moveAt_eq (t : Text) (pos : Nat) :
    ∃ text wellFormed, (t.moveAt pos).1 = .san text wellFormed := by
  unfold moveAt
  simp only
  split
  · exact ⟨_, _, rfl⟩
  · split
    · exact ⟨_, _, rfl⟩
    · exact ⟨_, _, rfl⟩

/-- A move ends in the text. -/
theorem moveAt_stop_le (t : Text) (pos : Nat) : (t.moveAt pos).2 ≤ t.size := by
  have hstop := t.seek_le_size endsWord pos
  unfold moveAt
  simp only
  split
  · exact hstop
  · split
    · exact Nat.le_trans (Nat.sub_le ..) hstop
    · exact hstop

/-- What starts with a digit is no parenthesis. -/
theorem numeralAt_ne (t : Text) (pos : Nat) :
    (t.numeralAt pos).1 ≠ .opening ∧ (t.numeralAt pos).1 ≠ .closing := by
  unfold numeralAt
  simp only
  split
  · exact ⟨nofun, nofun⟩
  · split
    · obtain ⟨text, wellFormed, hmove⟩ := t.exists_moveAt_eq pos
      rw [hmove]
      exact ⟨nofun, nofun⟩
    · split
      · split <;> exact ⟨nofun, nofun⟩
      · split <;> exact ⟨nofun, nofun⟩

/-- A numeral ends in the text. -/
theorem numeralAt_stop_le (t : Text) (pos : Nat) : (t.numeralAt pos).2 ≤ t.size := by
  unfold numeralAt
  simp only
  split
  · exact seek_le_size ..
  · split
    · exact moveAt_stop_le t pos
    · split
      · exact seek_le_size ..
      · split <;> exact seek_le_size ..

/-- A symbol is no parenthesis. -/
theorem symbolAt_ne (t : Text) (pos : Nat) (first : UInt8) :
    (t.symbolAt pos first).1 ≠ .opening ∧ (t.symbolAt pos first).1 ≠ .closing := by
  unfold symbolAt
  split
  · exact ⟨nofun, nofun⟩
  · simp only
    split
    · exact ⟨nofun, nofun⟩
    · split <;> exact ⟨nofun, nofun⟩

/-- A symbol ends in the text. -/
theorem symbolAt_stop_le {first : UInt8} : (t.symbolAt pos first).2 ≤ t.size := by
  unfold symbolAt
  split
  · next nag n hn =>
    have hlength := (Nag.le_length_of_symbolAt? hn).2
    rw [length_word] at hlength
    have := (Nag.le_length_of_symbolAt? hn).1
    dsimp only at hlength ⊢
    omega
  · simp only
    split
    · exact seek_le_size ..
    · split <;> exact seek_le_size ..

/-- A glyph is no parenthesis. -/
theorem nagAt_ne (t : Text) (pos : Nat) :
    (t.nagAt pos).1 ≠ .opening ∧ (t.nagAt pos).1 ≠ .closing := by
  unfold nagAt
  simp only
  split <;> exact ⟨nofun, nofun⟩

/-- A glyph ends in the text. -/
theorem nagAt_stop_le (t : Text) (pos : Nat) : (t.nagAt pos).2 ≤ t.size := by
  unfold nagAt
  simp only
  split <;> exact seek_le_size ..

/-- A token ends inside the text. -/
theorem tokenAt_stop_le (hb : t[pos]? = some b) : (t.tokenAt pos b).2 ≤ t.size := by
  have hlt := lt_size_of_getElem? hb
  unfold tokenAt
  split
  · exact hlt
  split
  · exact hlt
  split
  · exact hlt
  split
  · exact nagAt_stop_le t pos
  split
  · exact numeralAt_stop_le t pos
  split
  · exact moveAt_stop_le t pos
  · exact symbolAt_stop_le

/-- Only an opening parenthesis is read as one. -/
theorem tokenAt_opening (h : (t.tokenAt pos b).1 = .opening) :
    b = Byte.openParen ∧ (t.tokenAt pos b).2 = pos + 1 := by
  unfold tokenAt at h ⊢
  split
  · exact ⟨‹_›, rfl⟩
  next hopen =>
  rw [if_neg hopen] at h
  split at h
  · cases h
  split at h
  · cases h
  split at h
  · exact absurd h (t.nagAt_ne pos).1
  split at h
  · exact absurd h (t.numeralAt_ne pos).1
  split at h
  · obtain ⟨text, wellFormed, hmove⟩ := t.exists_moveAt_eq pos
    rw [hmove] at h
    cases h
  · exact absurd h (t.symbolAt_ne pos b).1

/-- Only a closing parenthesis is read as one. -/
theorem tokenAt_closing (h : (t.tokenAt pos b).1 = .closing) :
    b = Byte.closeParen ∧ (t.tokenAt pos b).2 = pos + 1 := by
  unfold tokenAt at h ⊢
  split at h
  · cases h
  next hopen =>
  rw [if_neg hopen]
  split
  · exact ⟨‹_›, rfl⟩
  next hclose =>
  rw [if_neg hclose] at h
  split at h
  · cases h
  split at h
  · exact absurd h (t.nagAt_ne pos).2
  split at h
  · exact absurd h (t.numeralAt_ne pos).2
  split at h
  · obtain ⟨text, wellFormed, hmove⟩ := t.exists_moveAt_eq pos
    rw [hmove] at h
    cases h
  · exact absurd h (t.symbolAt_ne pos b).2

end Text

/-! ## The layout of lexemes -/

/-- Tokens with these places can stand in the text from `pos` to `stop`: in order, none of them
empty, and with a parenthesis where a parenthesis was read. -/
def LaidOut (t : Text) (stop : Nat) (pos : Nat) : List Lexeme → Prop
  | [] => True
  | .token token span :: rest =>
    (pos ≤ span.start ∧ span.start < span.stop ∧ span.stop ≤ stop) ∧
    (token = .opening → t[span.start]? = some Byte.openParen ∧ span.stop = span.start + 1) ∧
    (token = .closing → t[span.start]? = some Byte.closeParen) ∧
    LaidOut t stop span.stop rest
  | _ :: rest => LaidOut t stop pos rest

/-- A token among these lies where they do and is not empty. -/
theorem LaidOut.of_mem {t : Text} {stop pos : Nat} {lexemes : List Lexeme} {token : Token}
    {span : Span} (h : LaidOut t stop pos lexemes) (hmem : .token token span ∈ lexemes) :
    pos ≤ span.start ∧ span.start < span.stop ∧ span.stop ≤ stop := by
  induction lexemes generalizing pos with
  | nil => cases hmem
  | cons lexeme rest ih =>
    rcases List.mem_cons.1 hmem with rfl | hrest
    · exact h.1
    · cases lexeme with
      | comment | openEnd => exact ih h hrest
      | token token' span' =>
        obtain ⟨⟨hstart, hlt, -⟩, -, -, hlaid⟩ := h
        obtain ⟨hlow, hplace⟩ := ih hlaid hrest
        exact ⟨by omega, hplace⟩

/-- Parentheses are one byte long. -/
theorem LaidOut.opening {t : Text} {stop pos : Nat} {lexemes : List Lexeme} {span : Span}
    (h : LaidOut t stop pos lexemes) (hmem : .token .opening span ∈ lexemes) :
    span.stop = span.start + 1 := by
  induction lexemes generalizing pos with
  | nil => cases hmem
  | cons lexeme rest ih =>
    rcases List.mem_cons.1 hmem with rfl | hrest
    · exact (h.2.1 rfl).2
    · cases lexeme with
      | comment | openEnd => exact ih h hrest
      | token token' span' => exact ih h.2.2.2 hrest

/-- Tokens follow one another. -/
theorem LaidOut.stop_le {t : Text} {stop pos : Nat} {first rest : List Lexeme}
    {token token' : Token} {span span' : Span} (h : LaidOut t stop pos (first ++ rest))
    (hmem : .token token span ∈ first) (hmem' : .token token' span' ∈ rest) :
    span.stop ≤ span'.start := by
  induction first generalizing pos with
  | nil => cases hmem
  | cons lexeme first ih =>
    rcases List.mem_cons.1 hmem with rfl | hfirst
    · exact (h.2.2.2.of_mem (List.mem_append_right _ hmem')).1
    · cases lexeme with
      | comment | openEnd => exact ih h hfirst
      | token head place => exact ih h.2.2.2 hfirst

namespace Text

variable {t : Text} {pos : Nat}

/-- The lexemes of a gap take up no room among the tokens. -/
theorem laidOut_gapLexemes_append (gap : Gap) {stop : Nat} {lexemes : List Lexeme}
    (h : LaidOut t stop pos lexemes) :
    LaidOut t stop pos ((t.gapLexemes gap).toList ++ lexemes) := by
  have hcomments (bodies : List Span) (rest : List Lexeme) (hrest : LaidOut t stop pos rest) :
      LaidOut t stop pos
        (bodies.map (fun body => Lexeme.comment body (t.readTrimmed body)) ++ rest) := by
    induction bodies with
    | nil => exact hrest
    | cons body bodies ih => exact ih
  have hproblem : LaidOut t stop pos (gap.problem?.toList.map Lexeme.openEnd ++ lexemes) := by
    cases gap.problem? with
    | none => exact h
    | some problem => exact h
  have hgap : (t.gapLexemes gap).toList ++ lexemes =
      gap.comments.toList.map (fun body => Lexeme.comment body (t.readTrimmed body)) ++
        (gap.problem?.toList.map Lexeme.openEnd ++ lexemes) := by
    cases hp : gap.problem? <;> simp [gapLexemes, hp]
  rw [hgap]
  exact hcomments _ _ hproblem

/-- Lexemes are laid out one behind the other. -/
theorem laidOut_lexemesAt (t : Text) (pos : Nat) : LaidOut t t.size pos (t.lexemesAt pos) := by
  induction hleft : t.size - pos using Nat.strongRecOn generalizing pos with
  | ind left ih =>
    rw [lexemesAt_eq]
    apply laidOut_gapLexemes_append
    split
    · trivial
    · next first hfirst =>
      have hgap := t.le_gap_stop pos
      have htoken := lt_tokenAt hfirst
      have hsize := lt_size_of_getElem? hfirst
      refine ⟨⟨hgap, htoken, tokenAt_stop_le hfirst⟩, ?_, ?_, ?_⟩
      · intro hopening
        obtain ⟨rfl, hstop⟩ := tokenAt_opening hopening
        exact ⟨hfirst, hstop⟩
      · intro hclosing
        obtain ⟨rfl, -⟩ := tokenAt_closing hclosing
        exact hfirst
      · exact ih _ (by dsimp only; omega) _ rfl

/-- The lexemes of a range are laid out in it. -/
theorem laidOut_lexemes (t : Text) (s : Span) : LaidOut t s.stop s.start (t.lexemes s) := by
  have hview (stop pos : Nat) (lexemes : List Lexeme)
      (h : LaidOut (t.upTo s.stop) stop pos lexemes) (hstop : stop ≤ s.stop) :
      LaidOut t s.stop pos lexemes := by
    induction lexemes generalizing pos with
    | nil => trivial
    | cons lexeme rest ih =>
      cases lexeme with
      | comment body text => exact ih pos h
      | openEnd problem => exact ih pos h
      | token token span =>
        obtain ⟨⟨hstart, hlt, hle⟩, hopening, hclosing, hrest⟩ := h
        have hbyte : (t.upTo s.stop)[span.start]? = t[span.start]? := by
          rw [getElem?_upTo, if_pos (by omega)]
        rw [hbyte] at hopening hclosing
        exact ⟨⟨hstart, hlt, Nat.le_trans hle hstop⟩, hopening, hclosing, ih _ hrest⟩
  exact hview _ _ _ (laidOut_lexemesAt (t.upTo s.stop) s.start) (Nat.min_le_left ..)

end Text

end Scorebook
