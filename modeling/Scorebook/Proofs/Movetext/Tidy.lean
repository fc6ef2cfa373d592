import Scorebook.Proofs.Movetext.Descent
import Scorebook.Proofs.Movetext.Legible

/-!
# What a score keeps is legible

A word is tidy if it is legible, or a comment that only a closing brace makes illegible. Valid
movetext is scanned into tidy words: the scanner cuts it in front of ASCII bytes and in front of
symbols, never inside a character (`Text.tidy_lexemesAt`). The pass over the lexemes keeps words as
they are and joins comments with a blank between them, so every word of the tree is tidy as well
(`Text.tidy_score`).
-/

namespace Scorebook

/-- The word is legible but for closing braces in a comment. -/
def Word.Tidy : Word → Prop
  | .comment text => TrimmedBytes (utf8 text)
  | w => w.Legible

/-- A tidy word is legible unless it is a comment with a closing brace in it. -/
theorem Word.Tidy.legible {w : Word} (h : w.Tidy)
    (hclean : ∀ text, w = .comment text → Byte.closeBrace ∉ utf8 text) : w.Legible := by
  cases w with
  | comment text => exact ⟨h, hclean text rfl⟩
  | _ => exact h

/-- The lexeme is a tidy word, an empty comment, or no word of a tree. -/
def Lexeme.Tidy : Lexeme → Prop
  | .comment _ text => text.isEmpty = true ∨ TrimmedBytes (utf8 text)
  | .token (.san text wellFormed) _ => LegibleMove (utf8 text) wellFormed
  | _ => True

namespace Text

variable {t : Text} {start pos stop : Nat} {first : UInt8} {text : String} {wellFormed : Bool}

/-! ## Moves -/

theorem lt_of_endsWord {b : UInt8} : endsWord b = true → b < 0x80 :=
  Byte.forall_of_table (p := fun b => endsWord b = true → b < 0x80) (by decide +kernel) b

/-- A symbol starts where a character does. -/
theorem exists_head?_of_isSymbol {bytes : List UInt8} (h : Nag.isSymbol bytes = true) :
    ∃ b, bytes.head? = some b ∧ b.IsUTF8FirstByte := by
  have htable : ∀ s ∈ Nag.symbols, s.1.head?.any (fun b => decide b.IsUTF8FirstByte) = true := by
    decide +kernel
  obtain ⟨s, hmem, heq⟩ := List.lookup_isSome_iff.1 h
  obtain ⟨b, hb, hfirst⟩ := (Option.any_eq_true ..).1 (htable s hmem)
  exact ⟨b, (beq_iff_eq.1 heq) ▸ hb, of_decide_eq_true hfirst⟩

/-- A word can be cut in front of the symbol it ends in. -/
theorem cut_of_symbol (hall : t.Cut start t.size) (hle : start ≤ pos) (hstop : stop ≤ t.size)
    {n : Nat} (hlt : n < (t.word ⟨pos, stop⟩).length)
    (hsymbol : Nag.isSymbol ((t.word ⟨pos, stop⟩).drop ((t.word ⟨pos, stop⟩).length - n)) = true) :
    t.Cut start (stop - n) ∧ pos ≤ stop - n ∧
      t.word ⟨pos, stop - n⟩ = (t.word ⟨pos, stop⟩).take ((t.word ⟨pos, stop⟩).length - n) := by
  have hlength : (t.word ⟨pos, stop⟩).length = stop - pos := by
    rw [length_word, Nat.min_eq_left hstop]
  rw [hlength] at hlt hsymbol ⊢
  obtain ⟨b, hb, hfirst⟩ := exists_head?_of_isSymbol hsymbol
  refine ⟨?_, by omega, ?_⟩
  · -- A symbol starts with the first byte of a character, so the word may be cut in front of it.
    rw [List.head?_drop, getElem?_word] at hb
    have hbyte : t[pos + (stop - pos - n)]? = some b := by
      split at hb
      · exact hb
      · cases hb
    exact cut_of_first hall (by omega) (getElem?_of_eq (by omega) hbyte) hfirst
  · apply List.ext_getElem?
    intro i
    rw [getElem?_word, List.getElem?_take, getElem?_word]
    dsimp only
    by_cases hi : pos + i < stop - n
    · rw [if_pos hi, if_pos (by omega), if_pos (by omega)]
    · rw [if_neg hi, if_neg (by omega)]

/-- A move in front of a symbol starts like the word that both are. -/
theorem startsMove_take {word : List UInt8} {n : Nat} (hstarts : startsMove word = true)
    (hmove : isMove (word.take n) = true) : startsMove (word.take n) = true := by
  cases n with
  | zero =>
    rw [List.take_zero] at hmove
    exact absurd hmove (by decide)
  | succ n =>
    rw [startsMove, Bool.or_eq_true] at hstarts ⊢
    rw [List.head?_take, if_neg (Nat.succ_ne_zero n)]
    -- A letter in front stays in front. Castling with zeros has to be looked at.
    refine hstarts.imp id fun hzero => ?_
    rw [isMove, latin1, List.map_take] at hmove
    rw [latin1, List.map_take]
    unfold San.startsWithZeroCastling latin1 at hzero
    split at hzero
    · next heq =>
      rw [heq] at hmove ⊢
      -- Less than three characters of castling are no move.
      rcases n with _ | _ | n
      · have hnone : San.isMove ['0'] = false := by decide
        exact absurd (hnone.symm.trans hmove) Bool.false_ne_true
      · have hnone : San.isMove ['0', '-'] = false := by decide
        exact absurd (hnone.symm.trans hmove) Bool.false_ne_true
      · rfl
    · cases hzero

/-- A move read from valid text is legible. -/
theorem legible_moveAt (hall : t.Cut start t.size) (hpos : t.Cut start pos)
    (hstarts : startsMove (t.word ⟨pos, t.seek endsWord pos⟩) = true)
    (h : (t.moveAt pos).1 = .san text wellFormed) : LegibleMove (utf8 text) wellFormed := by
  have hstop : t.Cut start (t.seek endsWord pos) :=
    cut_seek hall (fun _ => lt_of_endsWord) hpos.le hpos.le_size
  have hle : pos ≤ t.seek endsWord pos := le_seek hpos.le_size
  have hends : ∀ b ∈ t.word ⟨pos, t.seek endsWord pos⟩, endsWord b = false := by
    intro b hb
    obtain ⟨i, hi⟩ := List.mem_iff_getElem?.1 hb
    rw [getElem?_word] at hi
    split at hi
    · exact not_of_lt_seek (Nat.le_add_right ..) ‹_› hi
    · cases hi
  unfold moveAt at h
  simp only at h
  -- The word is a move, or a move with a symbol behind it, or neither.
  split at h
  · next hmove =>
    cases h
    rw [utf8_read hpos hstop hle]
    exact .word hends hstarts hmove nofun
  · next hmove =>
    split at h
    · next n hn =>
      cases h
      have hfound := List.find?_some hn
      simp only [Bool.and_eq_true, decide_eq_true_eq] at hfound
      obtain ⟨⟨hlt, hsymbol⟩, hmove⟩ := hfound
      -- In front of the symbol there is a cut, so what is left is read as it stands.
      obtain ⟨hcut, hle, htake⟩ := cut_of_symbol hall hpos.le hstop.le_size hlt hsymbol
      rw [utf8_read hpos hcut hle, htake]
      exact .word (fun b hb => hends b (List.mem_of_mem_take hb)) (startsMove_take hstarts hmove)
        hmove nofun
    · next hnone =>
      cases h
      rw [utf8_read hpos hstop hle]
      exact .word hends hstarts (Bool.not_eq_true _ ▸ hmove) fun _ => hnone

/-- Every move of valid text is legible. -/
theorem legible_tokenAt (hall : t.Cut start t.size) (hle : start ≤ pos)
    (hb : t[pos]? = some first) (h : (t.tokenAt pos first).1 = .san text wellFormed) :
    LegibleMove (utf8 text) wellFormed := by
  -- The kinds of tokens in the order in which they are looked for; three of them can be moves.
  unfold tokenAt at h
  split at h
  · cases h
  split at h
  · cases h
  split at h
  · cases h
  split at h
  · unfold nagAt at h
    simp only at h
    split at h <;> cases h
  split at h
  · next hdigit =>
    have hpos : t.Cut start pos := by
      refine cut_of_first hall hle hb ?_
      exact Byte.forall_of_table (p := fun b => Byte.isDigit b = true → b.IsUTF8FirstByte)
        (by decide +kernel) first hdigit
    -- What starts with a digit is a move only if it is castling with zeros.
    unfold numeralAt at h
    simp only at h
    split at h
    · cases h
    split at h
    · next hzero => exact legible_moveAt hall hpos (by rw [startsMove, hzero, Bool.or_true]) h
    split at h
    · split at h <;> cases h
    · split at h <;> cases h
  split at h
  · next hletter =>
    have hpos : t.Cut start pos := by
      refine cut_of_first hall hle hb ?_
      exact Byte.forall_of_table
        (p := fun b => (Byte.isLetter b || b == Byte.atSign) = true → b.IsUTF8FirstByte)
        (by decide +kernel) first hletter
    have hword := word_cons hb (lt_seek hb (endsWord_of_isLetter hletter))
    refine legible_moveAt hall hpos ?_ h
    rw [hword, startsMove, List.head?_cons, Option.any_some, hletter, Bool.true_or]
  · unfold symbolAt at h
    split at h
    · cases h
    simp only at h
    split at h
    · next hnull =>
      cases h
      have hlt := lt_size_of_getElem? hb
      have hbehind : pos + 1 ≤ t.seek endsWord (pos + 1) := le_seek hlt
      have hword := word_cons hb hbehind
      obtain ⟨rfl, -⟩ := List.cons.inj (hword.symm.trans hnull)
      have hpos := cut_of_first hall hle hb (by decide)
      have hstop := cut_seek hall (fun _ => lt_of_endsWord) (Nat.le_succ_of_le hle) hlt
      rw [utf8_read hpos hstop (Nat.le_of_succ_le hbehind), hnull]
      exact .null
    · split at h <;> cases h

/-! ## Comments -/

/-- Both ends of the range are cuts. -/
structure CutOut (t : Text) (start : Nat) (s : Span) : Prop where
  first : t.Cut start s.start
  last : t.Cut start s.stop
  le : s.start ≤ s.stop

/-- What stands behind an ASCII byte can be cut out up to a cut. -/
theorem cutOut_of_ascii (hall : t.Cut start t.size) (hle : start ≤ pos) {b : UInt8}
    (hb : t[pos]? = some b) (hascii : b < 0x80) (hstop : t.Cut start stop) (hlt : pos < stop) :
    t.CutOut start ⟨pos + 1, stop⟩ :=
  ⟨cut_succ_of_ascii hall hle hb hascii, hstop, hlt⟩

/-- Comments are cut out whole. -/
theorem cutOut_gapFrom (hall : t.Cut start t.size) (hle : start ≤ pos) {comments : Array Span}
    (h : ∀ body ∈ comments, t.CutOut start body) :
    ∀ body ∈ (t.gapFrom pos comments).comments, t.CutOut start body := by
  have hpush {comments : Array Span} {next : Span} (h : ∀ body ∈ comments, t.CutOut start body)
      (hnext : t.CutOut start next) : ∀ body ∈ comments.push next, t.CutOut start body := by
    intro body hbody
    obtain hmem | rfl := Array.mem_push.1 hbody
    · exact h body hmem
    · exact hnext
  -- By the recursion of `gapFrom`. Only three of its cases add a comment.
  fun_induction gapFrom t pos comments with
  | case1 | case4 | case8 => exact h
  | case2 pos comments b hb hblank ih => exact ih (Nat.le_succ_of_le hle) h
  | case3 pos comments b hb hblank hescape eol heol ih =>
    exact ih (Nat.le_trans hle (Nat.le_succ_of_le (le_lineEnd (Nat.le_of_lt
      (lt_size_of_getElem? hb))))) h
  | case5 pos comments eol hb hblank hescape ih =>
    have hlt : pos < eol := lt_lineEnd hb (by decide)
    have hstop : t.Cut start eol := by
      refine cut_seek hall (fun b hb => ?_) hle (Nat.le_of_lt (lt_size_of_getElem? hb))
      rw [beq_iff_eq.1 hb]
      decide
    exact ih hstop.le (hpush h (cutOut_of_ascii hall hle hb (by decide) hstop hlt))
  -- The braces are single bytes, so the comment between them can be cut out.
  | case6 pos comments b hb hblank hescape hsemicolon hbrace close hclose ih =>
    rw [beq_iff_eq] at hbrace
    have hlt : pos < close := lt_seek hb (by rw [hbrace]; rfl)
    have hstop : t.Cut start close := by
      refine cut_seek hall (fun b hb => ?_) hle (Nat.le_of_lt (lt_size_of_getElem? hb))
      rw [beq_iff_eq.1 hb]
      decide
    exact ih (Nat.le_succ_of_le hstop.le)
      (hpush h (cutOut_of_ascii hall hle hb (by rw [hbrace]; decide) hstop hlt))
  | case7 pos comments b hb hblank hescape hsemicolon hbrace close hclose =>
    rw [beq_iff_eq] at hbrace
    exact hpush h
      (cutOut_of_ascii hall hle hb (by rw [hbrace]; decide) hall (lt_size_of_getElem? hb))

/-- Moving back over blanks ends behind a byte that is none. -/
theorem trimEnd_spec {s : Nat} (hlt : s < stop) (hfirst : t[s]?.any Byte.isBlank = false) :
    s < t.trimEnd s stop ∧ t.trimEnd s stop ≤ stop ∧
      t[t.trimEnd s stop - 1]?.any Byte.isBlank = false ∧
      (t.trimEnd s stop = stop ∨ t[t.trimEnd s stop]?.any Byte.isBlank = true) := by
  -- By induction on the end, which is moved back over blanks.
  induction stop with
  | zero => omega
  | succ stop ih =>
    rw [trimEnd]
    split
    · next hback =>
      rw [Bool.and_eq_true] at hback
      have hne : s ≠ stop := by
        rintro rfl
        rw [hfirst] at hback
        cases hback.2
      obtain ⟨hlow, hhigh, hlast, hend⟩ := ih (by omega)
      refine ⟨hlow, Nat.le_succ_of_le hhigh, hlast, .inr ?_⟩
      obtain heq | hblank := hend
      · rw [heq]
        exact hback.2
      · exact hblank
    · next hstay =>
      rw [decide_eq_true (Nat.lt_succ_iff.1 hlt), Bool.true_and, Bool.not_eq_true] at hstay
      exact ⟨hlt, Nat.le_refl _, hstay, .inl rfl⟩

theorem lt_of_isBlank {b : UInt8} : Byte.isBlank b = true → b < 0x80 :=
  Byte.forall_of_table (p := fun b => Byte.isBlank b = true → b < 0x80) (by decide +kernel) b

/-- The first byte in a range that is no blank, or the end of the range. -/
theorem seek_nonblank_spec {s : Nat} (hle : pos ≤ stop) (hstop : stop ≤ t.size)
    (hseek : (t.upTo stop).seek (!Byte.isBlank ·) pos = s) :
    pos ≤ s ∧ s ≤ stop ∧
      (∀ i b, pos ≤ i → i < s → t[i]? = some b → Byte.isBlank b = true) ∧
      (s = stop ∨ s < stop ∧ t[s]?.any (!Byte.isBlank ·) = true) := by
  have hsize : (t.upTo stop).size = stop := Nat.min_eq_left hstop
  have hlow : pos ≤ (t.upTo stop).seek (!Byte.isBlank ·) pos := le_seek (by omega)
  -- What is found in the text cut off at `stop` is found in the text.
  have hhigh := (t.upTo stop).seek_le_size (!Byte.isBlank ·) pos
  have hfound := (t.upTo stop).seek_eq_size_or (!Byte.isBlank ·) pos
  have hbefore (i : Nat) (b : UInt8) (hi : pos ≤ i)
      (hlt : i < (t.upTo stop).seek (!Byte.isBlank ·) pos) (hb : t[i]? = some b) :
      Byte.isBlank b = true := by
    have hview : (t.upTo stop)[i]? = some b := by
      rw [getElem?_upTo, if_pos (by omega), hb]
    simpa using not_of_lt_seek (p := (!Byte.isBlank ·)) hi hlt hview
  rw [hseek, hsize] at hfound
  rw [hseek, hsize] at hhigh
  rw [hseek] at hlow hbefore
  refine ⟨hlow, hhigh, hbefore, hfound.imp id ?_⟩
  rintro ⟨b, hb, hnonblank⟩
  rw [getElem?_upTo] at hb
  split at hb
  · next hlt =>
    rw [hb]
    exact ⟨hlt, hnonblank⟩
  · cases hb

/-- A comment of valid text has no blanks at its ends. -/
theorem tidy_readTrimmed (hall : t.Cut start t.size) {body : Span} (h : t.CutOut start body) :
    (t.readTrimmed body).isEmpty = true ∨ TrimmedBytes (utf8 (t.readTrimmed body)) := by
  obtain ⟨pos, stop⟩ := body
  obtain ⟨hpos, hstop, hle⟩ := h
  dsimp only at hpos hstop hle
  rw [readTrimmed, trimmed]
  generalize hseek : (t.upTo stop).seek (!Byte.isBlank ·) pos = s
  obtain ⟨hlow, hhigh, hblanks, hfound⟩ := seek_nonblank_spec hle hstop.le_size hseek
  -- Either there are only blanks, or the first and the last byte that is none are kept.
  obtain rfl | ⟨hlt, hfirst⟩ := hfound
  · left
    have hempty : t.trimEnd s s = s := by
      cases s with
      | zero => rfl
      | succ s => rw [trimEnd, decide_eq_false (by omega), Bool.false_and, if_neg (by simp)]
    have hword : t.word ⟨s, s⟩ = [] := by
      rw [← List.length_eq_zero_iff, length_word]
      dsimp only
      omega
    rw [hempty, read, slice_eq_word, hword]
    rfl
  · right
    obtain ⟨b, hb, hnonblank⟩ := (Option.any_eq_true ..).1 hfirst
    rw [Bool.not_eq_true'] at hnonblank
    obtain ⟨hsome, hwithin, hlast, hend⟩ :=
      trimEnd_spec (t := t) hlt (by rw [hb]; exact hnonblank)
    have hsize := hstop.le_size
    -- In front of the first byte that is kept stands a blank, or the comment starts with it.
    have hcutFirst : t.Cut start s := by
      obtain rfl | hlt := Nat.eq_or_lt_of_le hlow
      · exact hpos
      · obtain ⟨c, hc⟩ := exists_getElem? (show s - 1 < t.size by omega)
        have hblank := hblanks (s - 1) c (by omega) (by omega) hc
        have hcut := cut_succ_of_ascii hall (by have := hpos.le; omega) hc (lt_of_isBlank hblank)
        rwa [show s - 1 + 1 = s by omega] at hcut
    -- Behind the last one stands a blank, or the comment ends with it.
    have hcutLast : t.Cut start (t.trimEnd s stop) := by
      obtain heq | hblank := hend
      · rw [heq]
        exact hstop
      · obtain ⟨c, hc, hblank⟩ := (Option.any_eq_true ..).1 hblank
        exact cut_of_first hall (by have := hcutFirst.le; omega) hc
          (isUTF8FirstByte_of_ascii (lt_of_isBlank hblank))
    rw [utf8_read hcutFirst hcutLast (Nat.le_of_lt hsome)]
    refine ⟨?_, ?_⟩
    · rw [word_cons hb hsome, List.head?_cons, Option.any_some, hnonblank]
      rfl
    · obtain ⟨c, hc⟩ := exists_getElem? (show t.trimEnd s stop - 1 < t.size by omega)
      rw [hc, Option.any_some] at hlast
      have hbehind : (t.word ⟨s, t.trimEnd s stop⟩).getLast? = some c := by
        rw [List.getLast?_eq_getElem?, getElem?_word, length_word]
        dsimp only
        rw [if_pos (by omega), ← hc]
        congr 1
        omega
      rw [hbehind, Option.any_some, hlast]
      rfl

/-! ## Lexemes -/

/-- The comments of a gap are trimmed. -/
theorem tidy_gapLexemes (hall : t.Cut start t.size) (hle : start ≤ pos) :
    ∀ lexeme ∈ t.gapLexemes (t.gap pos), lexeme.Tidy := by
  intro lexeme hmem
  rw [gapLexemes, Array.mem_append, Array.mem_map, Array.mem_map] at hmem
  obtain ⟨body, hbody, rfl⟩ | ⟨problem, -, rfl⟩ := hmem
  · exact tidy_readTrimmed hall (cutOut_gapFrom hall hle (by simp) body hbody)
  · trivial

/-- Every lexeme of valid text is tidy. -/
theorem tidy_lexemesAt (hall : t.Cut start t.size) (hle : start ≤ pos) :
    ∀ lexeme ∈ t.lexemesAt pos, lexeme.Tidy := by
  -- By induction on what is left behind `pos`: a gap and a token are read from it in turn.
  induction hleft : t.size - pos using Nat.strongRecOn generalizing pos with
  | ind left ih =>
    intro lexeme hmem
    have hgap := t.le_gap_stop pos
    rw [lexemesAt_eq, List.mem_append, Array.mem_toList_iff] at hmem
    obtain hmem | hmem := hmem
    · exact tidy_gapLexemes hall hle lexeme hmem
    · split at hmem
      · cases hmem
      · next first hfirst =>
        have htoken := lt_tokenAt hfirst
        have hsize := lt_size_of_getElem? hfirst
        obtain rfl | hmem := List.mem_cons.1 hmem
        · generalize hread : (t.tokenAt (t.gap pos).stop first).1 = token
          cases token with
          | san text wellFormed => exact legible_tokenAt hall (Nat.le_trans hle hgap) hfirst hread
          | _ => trivial
        · exact ih _ (by omega) (by omega) rfl lexeme hmem

end Text

/-! ## Trees -/

/-- Every word of the move and of what branches from it is tidy. -/
def Move.Tidy (m : Move) : Prop :=
  ∀ w ∈ m.outline.words, w.Tidy

/-- Every word of the line is tidy. -/
def Variation.Tidy (v : Variation) : Prop :=
  ∀ w ∈ v.outline.words, w.Tidy

theorem Variation.tidy_iff (v : Variation) :
    v.Tidy ↔ (∀ text ∈ v.comment, TrimmedBytes (utf8 text)) ∧ ∀ m ∈ v.moves, m.Tidy := by
  have hcomment : (∀ w ∈ Word.ofComment? v.comment, w.Tidy) ↔
      ∀ text ∈ v.comment, TrimmedBytes (utf8 text) := by
    cases v.comment <;> simp [Word.ofComment?, Word.Tidy]
  have hmoves : (∀ w ∈ movesWords (v.moves.map Move.outline), w.Tidy) ↔ ∀ m ∈ v.moves, m.Tidy := by
    rw [movesWords_eq_flatMap, List.flatMap_map]
    exact List.forall_mem_flatMap
  rw [Tidy, outline_eq, Outline.words, ← hcomment, ← hmoves, List.forall_mem_append]

theorem Move.tidy_iff (m : Move) :
    m.Tidy ↔ LegibleMove (utf8 m.san) m.wellFormed ∧
      (∀ text ∈ m.comment, TrimmedBytes (utf8 text)) ∧ ∀ v ∈ m.variations, v.Tidy := by
  have hnags : ∀ w ∈ m.nags.toList.map Word.nag, w.Tidy := by
    intro w hw
    obtain ⟨nag, -, rfl⟩ := List.mem_map.1 hw
    trivial
  have hcomment : (∀ w ∈ Word.ofComment? m.comment, w.Tidy) ↔
      ∀ text ∈ m.comment, TrimmedBytes (utf8 text) := by
    cases m.comment <;> simp [Word.ofComment?, Word.Tidy]
  have hbranches : (∀ w ∈ branchesWords (m.variations.map Variation.outline), w.Tidy) ↔
      ∀ v ∈ m.variations, v.Tidy := by
    rw [branchesWords_eq_flatMap, List.flatMap_map]
    constructor
    · intro h v hv w hw
      refine h w (List.mem_flatMap.2 ⟨v, hv, ?_⟩)
      exact List.mem_cons_of_mem _ (List.mem_append_left _ hw)
    · intro h w hw
      obtain ⟨v, hv, hw⟩ := List.mem_flatMap.1 hw
      obtain rfl | hw := List.mem_cons.1 hw
      · trivial
      obtain hw | hw := List.mem_append.1 hw
      · exact h v hv w hw
      · obtain rfl := List.mem_singleton.1 hw
        trivial
  rw [Tidy, outline_eq, OutlineMove.words, ← hcomment, ← hbranches, List.forall_mem_cons,
    List.forall_mem_append, List.forall_mem_append]
  exact and_congr_right' (and_iff_right hnags)

/-- What the line holds so far is tidy. -/
structure OpenLine.Tidy (l : OpenLine) : Prop where
  comment : ∀ text ∈ l.comment, TrimmedBytes (utf8 text)
  moves : ∀ m ∈ l.moves, m.Tidy
  last : ∀ m ∈ l.last, m.Tidy
  branches : ∀ v ∈ l.branches, v.Tidy

/-- Comments without blanks at their ends are joined to one without. -/
theorem trimmedBytes_joinComment {before : Option String} {text : String}
    (hbefore : ∀ text ∈ before, TrimmedBytes (utf8 text)) (htext : TrimmedBytes (utf8 text)) :
    ∀ joined ∈ joinComment before text, TrimmedBytes (utf8 joined) := by
  cases before with
  | none =>
    rintro _ ⟨⟩
    exact htext
  | some comment =>
    rintro _ ⟨⟩
    obtain ⟨hfirst, -⟩ := hbefore comment rfl
    obtain ⟨-, hlast⟩ := htext
    obtain ⟨first, hhead, hfirst⟩ := (Option.any_eq_true ..).1 hfirst
    obtain ⟨last, hbehind, hlast⟩ := (Option.any_eq_true ..).1 hlast
    rw [utf8_append, utf8_append]
    refine ⟨?_, ?_⟩
    · rw [List.head?_append, List.head?_append, hhead]
      exact hfirst
    · rw [List.getLast?_append, hbehind]
      exact hlast

namespace OpenLine

variable {l : OpenLine}

theorem tidy_new (id depth start : Nat) : (OpenLine.new id depth start).Tidy :=
  ⟨nofun, nofun, nofun, nofun⟩

theorem Tidy.settle (h : l.Tidy) : l.settle.Tidy := by
  obtain ⟨hcomment, hmoves, hlast, hbranches⟩ := h
  unfold OpenLine.settle
  split
  · next m hm =>
    refine ⟨hcomment, ?_, nofun, nofun⟩
    intro other hother
    obtain rfl | hmem := List.mem_cons.1 hother
    · obtain ⟨hsan, hcomment, -⟩ := m.tidy_iff.1 (hlast m hm)
      refine (Move.tidy_iff _).2 ⟨hsan, hcomment, ?_⟩
      intro v hv
      exact hbranches v (List.mem_reverse.1 hv)
    · exact hmoves other hmem
  · exact ⟨hcomment, hmoves, hlast, nofun⟩

theorem Tidy.close (h : l.Tidy) (stop : Nat) : (l.close stop).Tidy := by
  refine (Variation.tidy_iff _).2 ⟨h.settle.comment, ?_⟩
  intro m hm
  exact h.settle.moves m (List.mem_reverse.1 hm)

theorem Tidy.addComment (h : l.Tidy) {text : String}
    (htext : text.isEmpty = true ∨ TrimmedBytes (utf8 text)) : (l.addComment text).Tidy := by
  unfold OpenLine.addComment
  split
  · exact h
  · next hsome =>
    have htrimmed := htext.resolve_left hsome
    split
    · next m hm =>
      obtain ⟨hsan, hcomment, hvariations⟩ := m.tidy_iff.1 (h.last m hm)
      refine ⟨h.comment, h.moves, ?_, h.branches⟩
      rintro _ ⟨⟩
      exact (Move.tidy_iff _).2 ⟨hsan, trimmedBytes_joinComment hcomment htrimmed, hvariations⟩
    · exact ⟨trimmedBytes_joinComment h.comment htrimmed, h.moves, h.last, h.branches⟩

theorem Tidy.addMove (h : l.Tidy) {san : String} {wellFormed : Bool}
    (hsan : LegibleMove (utf8 san) wellFormed) (span : Span) (indicated : Option Nat) :
    (l.addMove san span indicated wellFormed).Tidy := by
  refine ⟨h.settle.comment, h.settle.moves, ?_, h.settle.branches⟩
  rintro _ ⟨⟩
  exact (Move.tidy_iff _).2 ⟨hsan, nofun, nofun⟩

theorem Tidy.addNag (h : l.Tidy) (nag : Nag) : ((l.addNag? nag).getD l).Tidy := by
  unfold addNag?
  cases hlast : l.last with
  | none => exact h
  | some m =>
    refine ⟨h.comment, h.moves, ?_, h.branches⟩
    rintro _ ⟨⟩
    exact (Move.tidy_iff _).2 (m.tidy_iff.1 (h.last m hlast))

theorem Tidy.addBranch (h : l.Tidy) {v : Variation} (hv : v.Tidy) : (l.addBranch v).Tidy :=
  ⟨h.comment, h.moves, h.last, List.forall_mem_cons.2 ⟨hv, h.branches⟩⟩

end OpenLine

/-- What the part adds to a line is tidy. -/
def LinePart.Tidy : LinePart → Prop
  | comment text => text.isEmpty = true ∨ TrimmedBytes (utf8 text)
  | move san _ wellFormed => LegibleMove (utf8 san) wellFormed
  | branch v => v.Tidy
  | _ => True

/-- A line stays tidy as tidy parts are read. -/
theorem LineReader.tidy_take {r : LineReader} (h : r.line.Tidy) (part : LinePart)
    (hpart : part.Tidy) : (r.take part).line.Tidy := by
  cases part with
  | comment text => exact h.addComment hpart
  | number n => exact h
  | move san span wellFormed => exact h.addMove hpart span r.number
  | nag nag => exact h.addNag nag
  | branch v => exact h.addBranch hpart

namespace Reader

open Descent

variable {strict : Bool} {stop : Nat}

/-- All lines that are open are tidy. -/
structure Tidy (r : Reader) : Prop where
  line : r.line.Tidy
  outer : ∀ l ∈ r.outer, l.Tidy

theorem tidy_start (pos : Nat) : (start pos).Tidy :=
  ⟨OpenLine.tidy_new .., List.forall_mem_nil _⟩

theorem tidy_closeAll {line : OpenLine} {outer : List OpenLine} (hline : line.Tidy)
    (houter : ∀ l ∈ outer, l.Tidy) : (closeAll line stop outer).Tidy := by
  induction outer generalizing line with
  | nil => exact hline.close stop
  | cons parent outer ih =>
    obtain ⟨hparent, houter⟩ := List.forall_mem_cons.1 houter
    exact ih (hparent.addBranch (hline.close stop)) houter

/-- A line stays tidy with what a plain lexeme adds to it. -/
theorem tidy_takeAll_plainPart? {lexeme : Lexeme} (hlexeme : lexeme.Tidy) {r : LineReader}
    (h : r.line.Tidy) : (r.takeAll (plainPart? lexeme).toList).line.Tidy := by
  cases lexeme with
  | comment body text => exact LineReader.tidy_take h (.comment text) hlexeme
  | openEnd problem => exact h
  | token token span =>
    cases token with
    | san text wellFormed => exact LineReader.tidy_take h (.move text span wellFormed) hlexeme
    | nag nag => exact LineReader.tidy_take h (.nag nag) trivial
    | _ => exact h

/-- The tree read from tidy lexemes is tidy. -/
theorem Tidy.run {r : Reader} (h : r.Tidy) {lexemes : List Lexeme}
    (hlexemes : ∀ lexeme ∈ lexemes, lexeme.Tidy) : (r.run strict stop lexemes).mainLine.Tidy := by
  -- By induction on the lexemes. Parentheses change the stack and a marker may end the pass.
  induction lexemes generalizing r with
  | nil =>
    rw [run_nil, finishOpen_mainLine]
    exact tidy_closeAll h.line h.outer
  | cons lexeme rest ih =>
    obtain ⟨hlexeme, hrest⟩ := List.forall_mem_cons.1 hlexemes
    by_cases hopening : ∃ span, lexeme = .token .opening span
    · obtain ⟨span, rfl⟩ := hopening
      obtain ⟨problems, henter⟩ := r.exists_enter_eq span
      rw [run_of_step rfl, henter]
      exact ih ⟨OpenLine.tidy_new .., List.forall_mem_cons.2 ⟨h.line, h.outer⟩⟩ hrest
    by_cases hclosing : ∃ span, lexeme = .token .closing span
    · obtain ⟨span, rfl⟩ := hclosing
      rw [Reader.run, Reader.pass]
      split
      · next houter => exact tidy_closeAll h.line h.outer
      · next parent outer houter =>
        obtain ⟨hparent, houter⟩ := List.forall_mem_cons.1 (houter ▸ h.outer)
        exact ih ⟨hparent.addBranch (h.line.close _), houter⟩ hrest
    by_cases hmarker : r.outer = [] ∧ isMarker lexeme = true
    · rw [Reader.run, mainLine_of_ending hmarker.1 (.inr ⟨lexeme, rest, rfl, hmarker.2⟩)]
      exact h.line.close stop
    · -- Any other lexeme adds its part to the current line.
      obtain ⟨problems, hplain⟩ := r.run_plain strict stop
        (fun span heq => hopening ⟨span, heq⟩) (fun span heq => hclosing ⟨span, heq⟩)
        (fun houter => by simpa [houter] using hmarker)
      rw [hplain]
      exact ih ⟨tidy_takeAll_plainPart? hlexeme h.line, h.outer⟩ hrest

end Reader

/-- Every word in the tree of valid movetext is tidy. -/
theorem Text.tidy_score (t : Text) (strict : Bool) (s : Span) (hvalid : (t.slice s).IsValidUTF8) :
    (t.score strict s).mainLine.Tidy := by
  refine (Reader.tidy_start s.start).run ?_
  show ∀ lexeme ∈ (t.upTo s.stop).lexemesAt s.start, lexeme.Tidy
  by_cases hle : s.start ≤ (t.upTo s.stop).size
  · refine tidy_lexemesAt ⟨hle, Nat.le_refl _, ?_⟩ (Nat.le_refl _)
    rw [slice, Nat.min_self]
    exact hvalid
  · rw [lexemesAt_of_size_le (by omega)]
    exact List.forall_mem_nil _

end Scorebook
