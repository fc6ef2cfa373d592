import Scorebook.Proofs.Movetext.Glyphs

/-!
# Glyphs in words

A format writes a glyph by number or with a symbol, or it describes the glyph in words. Words are
movetext too, and a scanner takes them for moves. They hold no comments and end no game, and their
parentheses match (`Wording`), so what stands around them is read as it would be without them.
-/

namespace Scorebook

/-! ## Comments and moves -/

/-- The text of a comment. -/
def Lexeme.comment? : Lexeme → Option String
  | .comment _ text => some text
  | _ => none

/-- A move as written, and whether it is in algebraic notation. -/
def Lexeme.san? : Lexeme → Option (String × Bool)
  | .token (.san text wellFormed) _ => some (text, wellFormed)
  | _ => none

/-! ## Lexemes of words -/

/-- Is this a token that is neither a parenthesis nor a termination marker? -/
def Lexeme.isPlain : Lexeme → Bool
  | .comment .. | .openEnd _ | .token .opening _ | .token .closing _ | .token (.marker _) _
  | .token .badMarker _ => false
  | .token .. => true

/-- Plain tokens, some of them in parentheses. -/
inductive Wording : List Lexeme → Prop
  | nil : Wording []
  | token {lexeme : Lexeme} {rest : List Lexeme} (hplain : lexeme.isPlain = true)
    (h : Wording rest) : Wording (lexeme :: rest)
  | group {inner rest : List Lexeme} (opening closing : Span)
    (hinner : ∀ lexeme ∈ inner, lexeme.isPlain = true) (h : Wording rest) :
    Wording (.token .opening opening :: (inner ++ .token .closing closing :: rest))

namespace Wording

variable {xs ys : List Lexeme}

/-- Words of a wording may be joined. -/
theorem append (h : Wording xs) (h' : Wording ys) : Wording (xs ++ ys) := by
  induction h with
  | nil => exact h'
  | token hplain _ ih => exact .token hplain ih
  | group opening closing hinner _ ih =>
    rw [List.cons_append, List.append_assoc]
    exact .group opening closing hinner ih

/-- What is plain is no comment. -/
theorem comment?_of_isPlain {lexeme : Lexeme} (h : lexeme.isPlain = true) :
    lexeme.comment? = none := by
  cases lexeme with
  | comment => cases h
  | _ => rfl

/-- There are no comments in words. -/
theorem comments (h : Wording xs) : xs.filterMap Lexeme.comment? = [] := by
  induction h with
  | nil => rfl
  | token hplain _ ih => rw [List.filterMap_cons_none (comment?_of_isPlain hplain), ih]
  | group opening closing hinner _ ih =>
    rw [List.filterMap_cons_none rfl, List.filterMap_append, List.filterMap_cons_none rfl, ih,
      List.filterMap_eq_nil_iff.2 fun lexeme hlexeme => comment?_of_isPlain (hinner lexeme hlexeme)]
    rfl

end Wording

/-- Plain tokens, some of them in parentheses, from a place outside or inside a parenthesis. -/
def WordingFrom (inside : Bool) (lexemes : List Lexeme) : Prop :=
  if inside then
    ∃ inner closing rest, lexemes = inner ++ .token .closing closing :: rest ∧
      (∀ lexeme ∈ inner, lexeme.isPlain = true) ∧ Wording rest
  else Wording lexemes

namespace WordingFrom

variable {rest : List Lexeme} {span : Span}

/-- A plain lexeme may stand anywhere in a wording. -/
theorem token {inside : Bool} {lexeme : Lexeme} (hplain : lexeme.isPlain = true)
    (h : WordingFrom inside rest) : WordingFrom inside (lexeme :: rest) := by
  cases inside with
  | false => exact Wording.token hplain h
  | true =>
    obtain ⟨inner, closing, rest, rfl, hinner, hrest⟩ := h
    exact ⟨lexeme :: inner, closing, rest, rfl, List.forall_mem_cons.2 ⟨hplain, hinner⟩, hrest⟩

/-- A parenthesis may be opened outside of all others. -/
theorem opening (h : WordingFrom true rest) :
    WordingFrom false (.token .opening span :: rest) := by
  obtain ⟨inner, closing, rest, rfl, hinner, hrest⟩ := h
  exact .group span closing hinner hrest

/-- It is closed before the wording ends. -/
theorem closing (h : WordingFrom false rest) : WordingFrom true (.token .closing span :: rest) :=
  ⟨[], span, rest, rfl, nofun, h⟩

end WordingFrom

/-! ## Bytes of words -/

/-- The bytes that words about a move are written with: letters, spaces and commas, and whatever is
not ASCII. -/
def isWording (b : UInt8) : Bool :=
  Byte.isLetter b || b == Byte.space || b == 0x2c || 0x80 ≤ b

/-- Are these words, some of them in parentheses, from a place outside or inside a parenthesis? -/
def wording (inside : Bool) : List UInt8 → Bool
  | [] => !inside
  | b :: bytes =>
    if b = Byte.openParen then !inside && wording true bytes
    else if b = Byte.closeParen then inside && wording false bytes
    else isWording b && wording inside bytes

/-- What is in front of the parentheses can be left out. -/
theorem wording_of_append {inside : Bool} {front back : List UInt8}
    (hfront : ∀ b ∈ front, Text.endsStretch b = false) (h : wording inside (front ++ back) = true) :
    wording inside back = true := by
  induction front with
  | nil => exact h
  | cons b front ih =>
    obtain ⟨hb, hfront⟩ := List.forall_mem_cons.1 hfront
    have hparens : b ≠ Byte.openParen ∧ b ≠ Byte.closeParen := by
      constructor <;> rintro rfl <;> cases hb
    rw [List.cons_append, wording, if_neg hparens.1, if_neg hparens.2, Bool.and_eq_true] at h
    exact ih hfront h.2

namespace Text

variable {t : Text} {pos : Nat} {b : UInt8} {bytes word : List UInt8}

/-- A symbol, or nothing known, if it does not start with a minus sign. -/
theorem symbolAt_of_ne_minus (hb : t[pos]? = some b) (hminus : b ≠ Byte.minus) (span : Span) :
    (Lexeme.token (t.symbolAt pos b).1 span).isPlain = true ∧
      (Lexeme.token (t.symbolAt pos b).1 span).san? = none := by
  unfold symbolAt
  split
  · exact ⟨rfl, rfl⟩
  · have hword : t.word ⟨pos, t.seek endsWord (pos + 1)⟩ ≠ [Byte.minus, Byte.minus] := by
      intro hword
      have hhead := congrArg List.head? hword
      have hlt : pos < t.seek endsWord (pos + 1) := le_seek (lt_size_of_getElem? hb)
      rw [head?_word, if_pos hlt, hb] at hhead
      exact hminus (Option.some.inj hhead)
    simp only [hword, if_false]
    split <;> exact ⟨rfl, rfl⟩

/-- A token that starts with a byte of words is plain, and it is a move if the byte is a letter. -/
theorem isPlain_tokenAt (hb : t[pos]? = some b) (hwording : isWording b = true) (span : Span) :
    (Lexeme.token (t.tokenAt pos b).1 span).isPlain = true ∧
      ((Lexeme.token (t.tokenAt pos b).1 span).san?.isSome = Byte.isLetter b) := by
  -- A letter begins a move, anything else a symbol, as the table of bytes shows.
  cases hletter : Byte.isLetter b with
  | true =>
    obtain ⟨text, wellFormed, hmove⟩ := t.exists_moveAt_eq pos
    rw [tokenAt_of_isLetter (by rw [hletter]; rfl), hmove]
    exact ⟨rfl, rfl⟩
  | false =>
    have hother : b ≠ Byte.openParen ∧ b ≠ Byte.closeParen ∧ b ≠ Byte.star ∧ b ≠ Byte.dollar ∧
        Byte.isDigit b = false ∧ (Byte.isLetter b || b == Byte.atSign) = false ∧
        b ≠ Byte.minus :=
      Byte.forall_of_table
        (p := fun b => isWording b = true → Byte.isLetter b = false →
          b ≠ Byte.openParen ∧ b ≠ Byte.closeParen ∧ b ≠ Byte.star ∧ b ≠ Byte.dollar ∧
            Byte.isDigit b = false ∧ (Byte.isLetter b || b == Byte.atSign) = false ∧
            b ≠ Byte.minus)
        (by decide +kernel) b hwording hletter
    obtain ⟨hopening, hclosing, hstar, hdollar, hdigit, hat, hminus⟩ := hother
    obtain ⟨hplain, hsan⟩ := symbolAt_of_ne_minus hb hminus span
    rw [tokenAt, if_neg hopening, if_neg hclosing, if_neg hstar, if_neg hdollar,
      if_neg (by simp [hdigit]), if_neg (by simp [hat]), hsan]
    exact ⟨hplain, rfl⟩

/-- A byte of a wording is in no gap. -/
theorem inGap_of_isWording (hb : t[pos]? = some b) (hwording : isWording b = true)
    (hblank : Byte.isBlank b = false) : t.inGap pos = false := by
  have hnone : b ≠ Byte.percent ∧ b ≠ Byte.semicolon ∧ b ≠ Byte.openBrace := by
    refine ⟨?_, ?_, ?_⟩ <;> rintro rfl <;> cases hwording
  simp [inGap_of_getElem? hb, hblank, hnone]

/-- A token ends no later than where it is set off. -/
theorem tokenAt_le_of_setOff {stop : Nat} (hb : t[pos]? = some b) (hlt : pos < stop)
    (hbehind : t.SetOff stop) : (t.tokenAt pos b).2 ≤ stop := by
  refine Nat.le_trans (tokenAt_le hb) ?_
  rcases hbehind with rfl | hc | hc
  · exact seek_le_size ..
  · exact seek_le_of_match hlt hc rfl
  · exact seek_le_of_match hlt hc rfl

/-- Words go on behind their first token, which no parenthesis stands in. -/
theorem exists_token_of_isWording (hheld : t.holdsAt pos (b :: bytes) = true)
    (hwording : isWording b = true) (hblank : Byte.isBlank b = false)
    (hbehind : t.SetOff (pos + (b :: bytes).length)) :
    ∃ lexeme front back, bytes = front ++ back ∧ (∀ c ∈ front, endsStretch c = false) ∧
      t.lexemesAt pos = lexeme :: t.lexemesAt (pos + 1 + front.length) ∧
      lexeme.isPlain = true ∧ lexeme.san?.isSome = Byte.isLetter b := by
  rw [holdsAt, Bool.and_eq_true, beq_iff_eq] at hheld
  obtain ⟨hb, hrest⟩ := hheld
  have hstart : pos < (t.tokenAt pos b).2 := lt_tokenAt hb
  have hend : (t.tokenAt pos b).2 ≤ pos + (b :: bytes).length :=
    tokenAt_le_of_setOff hb (Nat.lt_add_of_pos_right (Nat.succ_pos _)) hbehind
  rw [List.length_cons] at hend
  -- The token may end within the words; what is left of them is read next.
  obtain ⟨k, hk⟩ : ∃ k, (t.tokenAt pos b).2 = pos + 1 + k :=
    ⟨(t.tokenAt pos b).2 - (pos + 1), by omega⟩
  have hlength : (bytes.take k).length = k := by
    rw [List.length_take]
    omega
  obtain ⟨hplain, hsan⟩ := isPlain_tokenAt hb hwording ⟨pos, (t.tokenAt pos b).2⟩
  refine ⟨.token (t.tokenAt pos b).1 ⟨pos, (t.tokenAt pos b).2⟩, bytes.take k, bytes.drop k,
    (List.take_append_drop k bytes).symm, ?_, ?_, hplain, hsan⟩
  · intro c hc
    obtain ⟨i, hi⟩ := List.mem_iff_getElem?.1 hc
    have hlt := (List.getElem?_eq_some_iff.1 hi).1
    rw [List.getElem?_take_of_lt (by omega)] at hi
    have hstretch := tokenAt_le hb
    exact not_of_lt_seek (Nat.le_add_right ..) (by omega) (holdsAt_iff.1 hrest i c hi)
  · rw [lexemesAt_of_not_inGap hb (inGap_of_isWording hb hwording hblank), hlength, hk]

/-- Words go on behind their first lexeme, which is a move if they start with a letter. -/
theorem exists_lexeme_of_wording {inside : Bool} (hheld : t.holdsAt pos (b :: bytes) = true)
    (hblank : Byte.isBlank b = false) (hbehind : t.SetOff (pos + (b :: bytes).length))
    (hwording : wording inside (b :: bytes) = true) :
    ∃ lexeme front back inside', bytes = front ++ back ∧ wording inside' back = true ∧
      t.lexemesAt pos = lexeme :: t.lexemesAt (pos + 1 + front.length) ∧
      (∀ rest, WordingFrom inside' rest → WordingFrom inside (lexeme :: rest)) ∧
      lexeme.san?.isSome = Byte.isLetter b := by
  -- An opening parenthesis, a closing one, or the first byte of a token.
  have hb : t[pos]? = some b := holdsAt_iff.1 hheld 0 b rfl
  rw [wording] at hwording
  split at hwording
  · next hopening =>
    subst hopening
    rw [Bool.and_eq_true, Bool.not_eq_true'] at hwording
    obtain ⟨rfl, hwording⟩ := hwording
    have hgap : t.inGap pos = false := by
      rw [inGap_of_getElem? hb]
      rfl
    exact ⟨_, [], bytes, true, rfl, hwording, lexemesAt_of_not_inGap hb hgap,
      fun _ => WordingFrom.opening, rfl⟩
  split at hwording
  · next hclosing =>
    subst hclosing
    rw [Bool.and_eq_true] at hwording
    obtain ⟨rfl, hwording⟩ := hwording
    have hgap : t.inGap pos = false := by
      rw [inGap_of_getElem? hb]
      rfl
    exact ⟨_, [], bytes, false, rfl, hwording, lexemesAt_of_not_inGap hb hgap,
      fun _ => WordingFrom.closing, rfl⟩
  · rw [Bool.and_eq_true] at hwording
    obtain ⟨lexeme, front, back, rfl, hfront, hlexemes, hplain, hsan⟩ :=
      exists_token_of_isWording hheld hwording.1 hblank hbehind
    exact ⟨lexeme, front, back, inside, rfl, wording_of_append hfront hwording.2, hlexemes,
      fun _ => WordingFrom.token hplain, hsan⟩

/-- Behind a blank the wording goes on. -/
theorem wording_of_isBlank {inside : Bool} (hblank : Byte.isBlank b = true)
    (hwording : wording inside (b :: bytes) = true) :
    Byte.isLetter b = false ∧ wording inside bytes = true := by
  have hother : Byte.isLetter b = false ∧ b ≠ Byte.openParen ∧ b ≠ Byte.closeParen :=
    Byte.forall_of_table
      (p := fun b => Byte.isBlank b = true →
        Byte.isLetter b = false ∧ b ≠ Byte.openParen ∧ b ≠ Byte.closeParen)
      (by decide +kernel) b hblank
  rw [wording, if_neg hother.2.1, if_neg hother.2.2, Bool.and_eq_true] at hwording
  exact ⟨hother.1, hwording.2⟩

/-- Words are read as plain tokens, some of them in parentheses. There are moves among them if they
start with a letter, and none if there are no letters. -/
theorem exists_wordingFrom (inside : Bool) (hheld : t.holdsAt pos word = true)
    (hbehind : t.SetOff (pos + word.length)) (hwording : wording inside word = true) :
    ∃ lexemes, t.lexemesAt pos = lexemes ++ t.lexemesAt (pos + word.length) ∧
      WordingFrom inside lexemes ∧
      (word.head?.any Byte.isLetter = true → lexemes.filterMap Lexeme.san? ≠ []) ∧
      ((∀ b ∈ word, Byte.isLetter b = false) → lexemes.filterMap Lexeme.san? = []) := by
  -- By induction on the length: a blank is passed over, or one lexeme is read.
  induction hlength : word.length using Nat.strongRecOn generalizing pos word inside with
  | ind n ih =>
    subst hlength
    cases word with
    | nil =>
      cases inside with
      | false => exact ⟨[], rfl, Wording.nil, nofun, fun _ => rfl⟩
      | true => cases hwording
    | cons b bytes =>
      have hb : t[pos]? = some b := holdsAt_iff.1 hheld 0 b rfl
      have hrest : t.holdsAt (pos + 1) bytes = true := by
        rw [holdsAt, Bool.and_eq_true] at hheld
        exact hheld.2
      cases hblank : Byte.isBlank b with
      | true =>
        obtain ⟨hletter, hwording⟩ := wording_of_isBlank hblank hwording
        rw [List.length_cons, Nat.add_comm bytes.length, ← Nat.add_assoc] at hbehind ⊢
        obtain ⟨lexemes, hlexemes, hwords, -, hnomoves⟩ :=
          ih bytes.length (Nat.lt_succ_self _) inside hrest hbehind hwording rfl
        refine ⟨lexemes, (lexemesAt_of_isBlank hb hblank).trans hlexemes, hwords, ?_, ?_⟩
        · intro hstarts
          rw [List.head?_cons, Option.any_some, hletter] at hstarts
          cases hstarts
        · exact fun hletters => hnomoves fun c hc => hletters c (List.mem_cons_of_mem _ hc)
      | false =>
        obtain ⟨lexeme, front, back, inside', rfl, hwording', hlexeme, hfrom, hsan⟩ :=
          exists_lexeme_of_wording hheld hblank hbehind hwording
        have hstop : pos + (b :: (front ++ back)).length =
            pos + 1 + front.length + back.length := by
          rw [List.length_cons, List.length_append]
          omega
        rw [holdsAt_append, Bool.and_eq_true] at hrest
        rw [hstop] at hbehind ⊢
        obtain ⟨lexemes, hlexemes, hwords, -, hnomoves⟩ :=
          ih back.length (by rw [List.length_cons, List.length_append]; omega) inside' hrest.2
            hbehind hwording' rfl
        refine ⟨lexeme :: lexemes, ?_, hfrom lexemes hwords, ?_, ?_⟩
        · rw [hlexeme, hlexemes, List.cons_append]
        · intro hstarts
          rw [List.head?_cons, Option.any_some, ← hsan] at hstarts
          obtain ⟨san, hsan⟩ := Option.isSome_iff_exists.1 hstarts
          rw [List.filterMap_cons_some hsan]
          exact List.cons_ne_nil _ _
        · intro hletters
          obtain ⟨hletter, hletters⟩ := List.forall_mem_cons.1 hletters
          rw [hletter, Option.isSome_eq_false_iff, Option.isNone_iff_eq_none] at hsan
          rw [List.filterMap_cons_none hsan]
          exact hnomoves fun c hc => hletters c (List.mem_append_right _ hc)

end Text

/-! ## What is written for a glyph -/

theorem mem_of_lookup {α β : Type} [BEq α] [LawfulBEq α] {a : α} {b : β} {table : List (α × β)}
    (h : table.lookup a = some b) : (a, b) ∈ table := by
  obtain ⟨before, behind, htable, -⟩ := List.lookup_eq_some_iff.1 h
  rw [htable]
  exact List.mem_append_right _ List.mem_cons_self

namespace Nag

/-- The format describes the glyph: it has no number and no symbol for it. -/
def DescribedIn (nag : Nag) : NagFormat → Prop
  | .numeric => False
  | .brief => NagTable.briefs.lookup nag.code = none
  | .detailed => True

instance (nag : Nag) (format : NagFormat) : Decidable (nag.DescribedIn format) :=
  match format with
  | .numeric => inferInstanceAs (Decidable False)
  | .brief => inferInstanceAs (Decidable (_ = _))
  | .detailed => inferInstanceAs (Decidable True)

/-- Descriptions start with a letter. -/
theorem wording_description : ∀ d ∈ NagTable.descriptions.toList,
    (utf8 d).head?.any Byte.isLetter = true ∧ wording false (utf8 d) = true := by
  decide +kernel

/-- A symbol that is shown is one that can be written, or it has no letters. -/
theorem wording_symbol : ∀ s ∈ NagTable.briefs, (utf8 s.2, ⟨s.1⟩) ∈ Nag.symbols ∨
    wording false (utf8 s.2) = true ∧ ∀ b ∈ utf8 s.2, Byte.isLetter b = false := by
  decide +kernel

end Nag

namespace Text

variable {t : Text} {pos : Nat} {nag : Nag} {format : NagFormat}

/-- A numeral is read as a wording without a move. -/
theorem exists_wording_numeral (hheld : t.holdsAt pos (utf8 nag.numeral) = true)
    (hbehind : t.SetOff (pos + (utf8 nag.numeral).length)) :
    ∃ lexemes, t.lexemesAt pos = lexemes ++ t.lexemesAt (pos + (utf8 nag.numeral).length) ∧
      Wording lexemes ∧ lexemes.filterMap Lexeme.san? = [] := by
  obtain ⟨hb, hgap, htoken⟩ := tokenAt_of_numeral hheld hbehind.wordEnds
  have hlexemes := lexemesAt_of_not_inGap hb hgap
  rw [htoken] at hlexemes
  exact ⟨[_], hlexemes, .token rfl .nil, rfl⟩

/-- A glyph without a description of its own is described by its number. -/
theorem exists_wording_reserved
    (hheld : t.holdsAt pos (utf8 ("Reserved annotation " ++ nag.numeral)) = true)
    (hbehind : t.SetOff (pos + (utf8 ("Reserved annotation " ++ nag.numeral)).length)) :
    ∃ lexemes, t.lexemesAt pos =
        lexemes ++ t.lexemesAt (pos + (utf8 ("Reserved annotation " ++ nag.numeral)).length) ∧
      Wording lexemes ∧ lexemes.filterMap Lexeme.san? ≠ [] := by
  have hbytes : utf8 ("Reserved annotation " ++ nag.numeral) =
      utf8 "Reserved annotation" ++ Byte.space :: utf8 nag.numeral := by
    rw [utf8_append, show utf8 "Reserved annotation " = utf8 "Reserved annotation" ++ [Byte.space]
      by decide +kernel, List.append_assoc, List.singleton_append]
  obtain ⟨hstarts, hwording⟩ : (utf8 "Reserved annotation").head?.any Byte.isLetter = true ∧
      wording false (utf8 "Reserved annotation") = true := by decide +kernel
  rw [hbytes] at hheld hbehind ⊢
  generalize utf8 "Reserved annotation" = words at *
  rw [holdsAt_append, Bool.and_eq_true, holdsAt, Bool.and_eq_true, beq_iff_eq] at hheld
  obtain ⟨hwords, hspace, hnumeral⟩ := hheld
  rw [List.length_append, List.length_cons, Nat.add_comm (utf8 nag.numeral).length,
    ← Nat.add_assoc, ← Nat.add_assoc] at hbehind ⊢
  -- The words are followed by a blank, and then by the numeral.
  obtain ⟨lexemes, hlexemes, hread, hmoves, -⟩ :=
    exists_wordingFrom false hwords (.inr (.inl hspace)) hwording
  obtain ⟨number, hnumber, hreadNumber, hnone⟩ := exists_wording_numeral hnumeral hbehind
  refine ⟨lexemes ++ number, ?_, Wording.append hread hreadNumber, ?_⟩
  · rw [hlexemes, lexemesAt_of_isBlank hspace rfl, hnumber, List.append_assoc]
  · rw [List.filterMap_append, hnone, List.append_nil]
    exact hmoves hstarts

/-- A description is read as a wording with a move in it. -/
theorem exists_wording_description (hheld : t.holdsAt pos (utf8 nag.description) = true)
    (hbehind : t.SetOff (pos + (utf8 nag.description).length)) :
    ∃ lexemes, t.lexemesAt pos = lexemes ++ t.lexemesAt (pos + (utf8 nag.description).length) ∧
      Wording lexemes ∧ lexemes.filterMap Lexeme.san? ≠ [] := by
  unfold Nag.description at hheld hbehind ⊢
  cases hdescription : NagTable.descriptions[nag.code.toNat]? with
  | some d =>
    simp only [hdescription, Option.getD_some] at hheld hbehind ⊢
    obtain ⟨hstarts, hwording⟩ :=
      Nag.wording_description d (Array.mem_toList_iff.2 (Array.mem_of_getElem? hdescription))
    obtain ⟨lexemes, hlexemes, hread, hmoves, -⟩ :=
      exists_wordingFrom false hheld hbehind hwording
    exact ⟨lexemes, hlexemes, hread, hmoves hstarts⟩
  | none =>
    simp only [hdescription, Option.getD_none] at hheld hbehind ⊢
    exact exists_wording_reserved hheld hbehind

/-- A symbol is read as a wording without a move. -/
theorem exists_wording_symbol {symbol : String} (hmem : (nag.code, symbol) ∈ NagTable.briefs)
    (hheld : t.holdsAt pos (utf8 symbol) = true)
    (hbehind : t.SetOff (pos + (utf8 symbol).length)) :
    ∃ lexemes, t.lexemesAt pos = lexemes ++ t.lexemesAt (pos + (utf8 symbol).length) ∧
      Wording lexemes ∧ lexemes.filterMap Lexeme.san? = [] := by
  -- The table has a symbol for the code, which is read back, or a word.
  rcases Nag.wording_symbol _ hmem with hsymbol | ⟨hwording, hletters⟩
  · have hend : t[pos + (utf8 symbol).length]?.all endsGlyph = true := by
      rcases hbehind with hsize | hb | hb
      · rw [getElem?_eq_none_iff.2 (Nat.le_of_eq hsize.symm)]
        rfl
      · rw [hb]
        rfl
      · rw [hb]
        rfl
    exact ⟨[_], lexemesAt_of_symbol hsymbol hheld hend, .token rfl .nil, rfl⟩
  · obtain ⟨lexemes, hlexemes, hread, -, hnone⟩ :=
      exists_wordingFrom false hheld hbehind hwording
    exact ⟨lexemes, hlexemes, hread, hnone hletters⟩

/-- Whatever a format has for a glyph is read as words, with moves among them exactly if the format
describes the glyph. -/
theorem exists_wording_render (hheld : t.holdsAt pos (utf8 (nag.render format)) = true)
    (hbehind : t.SetOff (pos + (utf8 (nag.render format)).length)) :
    ∃ lexemes, t.lexemesAt pos =
        lexemes ++ t.lexemesAt (pos + (utf8 (nag.render format)).length) ∧
      Wording lexemes ∧ (lexemes.filterMap Lexeme.san? = [] ↔ ¬nag.DescribedIn format) := by
  -- A numeral or a symbol is no move, a description begins with a letter.
  cases format with
  | numeric =>
    obtain ⟨lexemes, hlexemes, hread, hnone⟩ := exists_wording_numeral hheld hbehind
    exact ⟨lexemes, hlexemes, hread, iff_of_true hnone nofun⟩
  | detailed =>
    obtain ⟨lexemes, hlexemes, hread, hmoves⟩ := exists_wording_description hheld hbehind
    exact ⟨lexemes, hlexemes, hread, iff_of_false hmoves fun hnot => hnot trivial⟩
  | brief =>
    unfold Nag.render at hheld hbehind ⊢
    cases hbrief : NagTable.briefs.lookup nag.code with
    | none =>
      simp only [hbrief, Option.getD_none] at hheld hbehind ⊢
      obtain ⟨lexemes, hlexemes, hread, hmoves⟩ := exists_wording_description hheld hbehind
      exact ⟨lexemes, hlexemes, hread, iff_of_false hmoves fun hnot => hnot hbrief⟩
    | some symbol =>
      simp only [hbrief, Option.getD_some] at hheld hbehind ⊢
      obtain ⟨lexemes, hlexemes, hread, hnone⟩ :=
        exists_wording_symbol (mem_of_lookup hbrief) hheld hbehind
      refine ⟨lexemes, hlexemes, hread, iff_of_true hnone ?_⟩
      rw [Nag.DescribedIn, hbrief]
      nofun

end Text

end Scorebook
