import Scorebook.Proofs.Movetext.Lexemes
import Scorebook.Proofs.Movetext.Outline

/-!
# Words that are read as they are written

A word is legible if a scanner that comes upon it reads this word and nothing else. Parentheses and
glyphs always are. A comment is if no blank stands at its ends and no closing brace in it. A move is
if it starts like one, holds no byte that ends a word, and is not taken for a move with a symbol
behind it (`LegibleMove`).

Legible words, written one after the other, are read back one after the other
(`Text.lexemesAt_of_spell`).
-/

namespace Scorebook

/-! ## Legible words -/

/-- Does the word start like a move, or like castling written with zeros? -/
def startsMove (word : List UInt8) : Bool :=
  word.head?.any (fun b => Byte.isLetter b || b == Byte.atSign) ||
    San.startsWithZeroCastling (latin1 word)

/-- The bytes of a move that is read as it is written, well formed or not. -/
inductive LegibleMove : List UInt8 → Bool → Prop
  /-- A null move. -/
  | null : LegibleMove [Byte.minus, Byte.minus] true
  /-- A word that starts like a move and is not cut in two. -/
  | word {word : List UInt8} {wellFormed : Bool} (hends : ∀ b ∈ word, Text.endsWord b = false)
    (hstarts : startsMove word = true) (hmove : Text.isMove word = wellFormed)
    (hsymbol : wellFormed = false → Text.trailingSymbol? word = none) : LegibleMove word wellFormed

/-- The bytes of a comment: there are some, and the first and the last of them are no blanks. -/
structure TrimmedBytes (bytes : List UInt8) : Prop where
  first : bytes.head?.any (!Byte.isBlank ·) = true
  last : bytes.getLast?.any (!Byte.isBlank ·) = true

/-- The word is read as it is written. -/
def Word.Legible : Word → Prop
  | .comment text => TrimmedBytes (utf8 text) ∧ Byte.closeBrace ∉ utf8 text
  | .san text wellFormed => LegibleMove (utf8 text) wellFormed
  | _ => True

/-- The word that a lexeme is. -/
def Lexeme.word? : Lexeme → Option Word
  | .comment _ text => some (.comment text)
  | .token .opening _ => some .opening
  | .token .closing _ => some .closing
  | .token (.san text wellFormed) _ => some (.san text wellFormed)
  | .token (.nag nag) _ => some (.nag nag)
  | _ => none

/-! ## Decimal numbers -/

namespace Decimal

/-- A digit is encoded as one byte. -/
theorem utf8_digitChar : ∀ d < 10,
    utf8 (String.singleton (Nat.digitChar d)) = [UInt8.ofNat (Byte.zero.toNat + d)] := by
  decide

/-- A number is written with digits, at least one, whose value it is. -/
theorem repr_spec (n : Nat) :
    utf8 n.repr ≠ [] ∧ (∀ b ∈ utf8 n.repr, Byte.isDigit b = true) ∧ value (utf8 n.repr) = n := by
  have hdigit : ∀ d < 10, Byte.isDigit (UInt8.ofNat (Byte.zero.toNat + d)) = true ∧
      (UInt8.ofNat (Byte.zero.toNat + d)).toNat - Byte.zero.toNat = d := by
    decide
  -- By induction on the number, whose last digit is cut off.
  induction n using Nat.strongRecOn with
  | ind n ih =>
    rcases Nat.lt_or_ge n 10 with hlt | hge
    · rw [Nat.repr_of_lt hlt, utf8_digitChar n hlt]
      obtain ⟨hisDigit, hvalue⟩ := hdigit n hlt
      refine ⟨List.cons_ne_nil _ _, List.forall_mem_singleton.2 hisDigit, ?_⟩
      rw [value, List.foldl_cons, List.foldl_nil, hvalue]
      omega
    · have hlow : n % 10 < 10 := Nat.mod_lt n (by omega)
      rw [Nat.repr_of_ge hge, utf8_append, utf8_digitChar _ hlow]
      obtain ⟨hisDigit, hvalue⟩ := hdigit _ hlow
      obtain ⟨hsome, hdigits, hprefix⟩ := ih (n / 10) (by omega)
      refine ⟨List.append_ne_nil_of_left_ne_nil hsome _,
        List.forall_mem_append.2 ⟨hdigits, List.forall_mem_singleton.2 hisDigit⟩, ?_⟩
      rw [value] at hprefix ⊢
      rw [List.foldl_append, hprefix, List.foldl_cons, List.foldl_nil, hvalue]
      omega

/-- A number that is written in digits is read back. -/
theorem parse?_repr {n bound : Nat} (h : n < bound) : parse? bound (utf8 n.repr) = some n := by
  obtain ⟨hsome, hdigits, hvalue⟩ := repr_spec n
  rw [parse?, hvalue, if_pos ⟨hsome, List.all_eq_true.2 hdigits, h⟩]

end Decimal

namespace Text

variable {t : Text} {pos : Nat} {word : List UInt8} {wellFormed : Bool}

/-! ## Where words end -/

/-- A word that reaches to `pos` ends there. -/
def WordEnds (t : Text) (pos : Nat) : Prop :=
  pos = t.size ∨ ∃ b, t[pos]? = some b ∧ endsWord b = true

/-- A word is sought to where it ends. -/
theorem seek_of_wordEnds (hheld : t.holdsAt pos word = true)
    (hnone : ∀ b ∈ word, endsWord b = false) (hend : t.WordEnds (pos + word.length)) :
    t.seek endsWord pos = pos + word.length := by
  obtain hsize | ⟨b, hb, hends⟩ := hend
  · rw [hsize]
    apply seek_eq_size
    · intro i c hi hc
      have hlt := lt_size_of_getElem? hc
      exact hnone c (mem_of_holdsAt hheld hi (by omega) hc)
    · omega
  · exact seek_of_holdsAt hheld hnone hb hends

/-- What is read from a range where a word stands is the word. -/
theorem read_of_holdsAt (hheld : t.holdsAt pos word = true) :
    t.read ⟨pos, pos + word.length⟩ = decode word.toByteArray := by
  rw [read, slice_eq_word, word_of_holdsAt hheld]

/-! ## Moves -/

/-- A move that is legible is read as it is written. -/
theorem moveAt_of_legible (hheld : t.holdsAt pos word = true)
    (hnone : ∀ b ∈ word, endsWord b = false) (hend : t.WordEnds (pos + word.length))
    (hmove : isMove word = wellFormed)
    (hsymbol : wellFormed = false → trailingSymbol? word = none) :
    t.moveAt pos = (.san (decode word.toByteArray) wellFormed, pos + word.length) := by
  have hseek := seek_of_wordEnds hheld hnone hend
  have hword := word_of_holdsAt hheld
  unfold moveAt
  simp only [hseek, hword, read_of_holdsAt hheld]
  cases wellFormed with
  | true => rw [if_pos hmove]
  | false =>
    rw [if_neg (by simp [hmove]), hsymbol rfl]

/-- What starts with a letter is read as a move. -/
theorem tokenAt_of_isLetter {first : UInt8}
    (h : (Byte.isLetter first || first == Byte.atSign) = true) :
    t.tokenAt pos first = t.moveAt pos := by
  have hother : first ≠ Byte.openParen ∧ first ≠ Byte.closeParen ∧ first ≠ Byte.star ∧
      first ≠ Byte.dollar ∧ Byte.isDigit first = false :=
    Byte.forall_of_table
      (p := fun first => (Byte.isLetter first || first == Byte.atSign) = true →
        first ≠ Byte.openParen ∧ first ≠ Byte.closeParen ∧ first ≠ Byte.star ∧
          first ≠ Byte.dollar ∧ Byte.isDigit first = false)
      (by decide +kernel) first h
  rw [tokenAt, if_neg hother.1, if_neg hother.2.1, if_neg hother.2.2.1, if_neg hother.2.2.2.1,
    if_neg (by simp [hother.2.2.2.2]), if_pos h]

/-- Castling written with zeros starts with a zero. -/
theorem head?_of_startsWithZeroCastling (h : San.startsWithZeroCastling (latin1 word) = true) :
    word.head? = some Byte.zero := by
  cases word with
  | nil => cases h
  | cons first rest =>
    have hchar : Char.ofUInt8 first = '0' := by
      rw [latin1, List.map_cons] at h
      unfold San.startsWithZeroCastling at h
      split at h
      · next heq => exact (List.cons.inj heq).1
      · cases h
    exact congrArg some (Byte.forall_of_table
      (p := fun first => Char.ofUInt8 first = '0' → first = Byte.zero) (by decide +kernel) first
      hchar)

/-- Castling with zeros is a move and no numeral. -/
theorem numeralAt_of_startsWithZeroCastling (hheld : t.holdsAt pos word = true)
    (hnone : ∀ b ∈ word, endsWord b = false) (hend : t.WordEnds (pos + word.length))
    (hzero : San.startsWithZeroCastling (latin1 word) = true) : t.numeralAt pos = t.moveAt pos := by
  have houtcome : Outcome.ofText? (latin1 word) = none := by
    unfold San.startsWithZeroCastling at hzero
    split at hzero
    · next heq =>
      rw [heq]
      rfl
    · cases hzero
  unfold numeralAt
  simp only [seek_of_wordEnds hheld hnone hend, word_of_holdsAt hheld, houtcome, hzero, if_true]

/-- Two minus signs are no symbol, whatever follows them where a word ends. -/
theorem symbolAt?_minus_minus {behind : Option UInt8} (h : behind.all endsWord = true) :
    Nag.symbolAt? (Byte.minus :: Byte.minus :: behind.toList) = none := by
  cases behind with
  | none => decide
  | some b =>
    exact Byte.forall_of_table
      (p := fun b => endsWord b = true → Nag.symbolAt? [Byte.minus, Byte.minus, b] = none)
      (by decide +kernel) b h

/-- Two dashes are looked at with the byte behind them. -/
theorem word_symbolReach (hheld : t.holdsAt pos [Byte.minus, Byte.minus] = true) :
    t.word ⟨pos, pos + symbolReach⟩ = Byte.minus :: Byte.minus :: t[pos + 2]?.toList := by
  simp only [holdsAt, Bool.and_true, Bool.and_eq_true, beq_iff_eq] at hheld
  apply List.ext_getElem?
  intro i
  rw [getElem?_word]
  rcases i with _ | _ | _ | i
  · simpa [symbolReach] using hheld.1
  · simpa [symbolReach] using hheld.2
  · cases t[pos + 2]? <;> simp [symbolReach]
  · rw [if_neg (by simp only [symbolReach]; omega)]
    cases t[pos + 2]? <;> simp

/-- Two dashes are a move. -/
theorem symbolAt_of_minus_minus (hheld : t.holdsAt pos [Byte.minus, Byte.minus] = true)
    (hend : t.WordEnds (pos + 2)) :
    t.symbolAt pos Byte.minus =
      (.san (decode [Byte.minus, Byte.minus].toByteArray) true, pos + 2) := by
  -- What follows the hyphens is part of no symbol, so the word is compared as it stands.
  have hbehind : t[pos + 2]?.all endsWord = true := by
    obtain hsize | ⟨b, hb, hends⟩ := hend
    · rw [getElem?_eq_none_iff.2 (Nat.le_of_eq hsize.symm)]
      rfl
    · rw [hb]
      exact hends
  have hseek : t.seek endsWord (pos + 1) = pos + 2 := by
    rw [holdsAt, Bool.and_eq_true] at hheld
    exact seek_of_wordEnds hheld.2 (List.forall_mem_singleton.2 rfl) hend
  have hword := word_of_holdsAt hheld
  have hread : t.read ⟨pos, pos + 2⟩ = decode [Byte.minus, Byte.minus].toByteArray := by
    rw [read, slice_eq_word]
    exact congrArg (fun bytes => decode (List.toByteArray bytes)) hword
  unfold symbolAt
  rw [word_symbolReach hheld, symbolAt?_minus_minus hbehind]
  simp only [hseek, hread]
  exact if_pos hword

/-- A move starts with no byte of a gap. -/
theorem inGap_of_startsMove {first : UInt8} (hb : t[pos]? = some first)
    (hstarts : (Byte.isLetter first || first == Byte.atSign || first == Byte.zero ||
      first == Byte.minus) = true) : t.inGap pos = false := by
  have hnone : (Byte.isBlank first || first == Byte.percent || first == Byte.semicolon ||
      first == Byte.openBrace) = false :=
    Byte.forall_of_table
      (p := fun b => (Byte.isLetter b || b == Byte.atSign || b == Byte.zero ||
          b == Byte.minus) = true →
        (Byte.isBlank b || b == Byte.percent || b == Byte.semicolon || b == Byte.openBrace) = false)
      (by decide +kernel) first hstarts
  simp only [Bool.or_eq_false_iff] at hnone
  rw [inGap_of_getElem? hb, hnone.1.1.1, hnone.1.1.2, hnone.1.2, hnone.2]
  rfl

/-- A legible move is one token. -/
theorem tokenAt_of_legibleMove (hlegible : LegibleMove word wellFormed)
    (hheld : t.holdsAt pos word = true) (hend : t.WordEnds (pos + word.length)) :
    ∃ first, t[pos]? = some first ∧ t.inGap pos = false ∧
      t.tokenAt pos first = (.san (decode word.toByteArray) wellFormed, pos + word.length) := by
  cases hlegible with
  | null =>
    -- The null move begins with a hyphen, any other with a letter or a zero of castling.
    have hb : t[pos]? = some Byte.minus := holdsAt_iff.1 hheld 0 Byte.minus rfl
    exact ⟨Byte.minus, hb, inGap_of_startsMove hb rfl, symbolAt_of_minus_minus hheld hend⟩
  | word hends hstarts hmove hsymbol =>
    have hread := moveAt_of_legible hheld hends hend hmove hsymbol
    rw [startsMove, Bool.or_eq_true] at hstarts
    obtain hletter | hzero := hstarts
    · obtain ⟨first, hfirst, hletter⟩ := (Option.any_eq_true ..).1 hletter
      have hb := holdsAt_iff.1 hheld 0 first (List.head?_eq_getElem? ▸ hfirst)
      refine ⟨first, hb, inGap_of_startsMove hb (by rw [hletter]; rfl), ?_⟩
      rw [tokenAt_of_isLetter hletter, hread]
    · have hfirst := head?_of_startsWithZeroCastling hzero
      have hb := holdsAt_iff.1 hheld 0 Byte.zero (List.head?_eq_getElem? ▸ hfirst)
      refine ⟨Byte.zero, hb, inGap_of_startsMove hb rfl, ?_⟩
      rw [← hread, ← numeralAt_of_startsWithZeroCastling hheld hends hend hzero]
      rfl

/-! ## Glyphs -/

/-- The number of a glyph is read as the glyph. -/
theorem numeral_spec (nag : Nag) : ∃ digits, utf8 nag.numeral = Byte.dollar :: digits ∧
    (∀ b ∈ digits, endsWord b = false) ∧ Nag.ofBytes? (Byte.dollar :: digits) = some nag := by
  refine ⟨utf8 nag.code.toNat.repr, ?_, ?_, ?_⟩
  · have hdollar : utf8 "$" = [Byte.dollar] := by decide
    rw [Nag.numeral, utf8_append, hdollar]
    rfl
  · intro b hb
    exact endsWord_of_isDigit ((Decimal.repr_spec nag.code.toNat).2.1 b hb)
  · have hcode : nag.code.toNat < 256 := nag.code.toNat_lt
    show (Decimal.parse? 256 (utf8 nag.code.toNat.repr)).map (fun n => ⟨UInt8.ofNat n⟩) = some nag
    rw [Decimal.parse?_repr hcode, Option.map_some, UInt8.ofNat_toNat]

/-- The number of a glyph is one token, with zeros in front or without. -/
theorem tokenAt_of_dollar {nag : Nag} {digits : List UInt8}
    (hread : Nag.ofBytes? (Byte.dollar :: digits) = some nag)
    (hends : ∀ b ∈ digits, endsWord b = false)
    (hheld : t.holdsAt pos (Byte.dollar :: digits) = true)
    (hend : t.WordEnds (pos + (Byte.dollar :: digits).length)) :
    t[pos]? = some Byte.dollar ∧ t.inGap pos = false ∧
      t.tokenAt pos Byte.dollar = (.nag nag, pos + (Byte.dollar :: digits).length) := by
  have hb : t[pos]? = some Byte.dollar := holdsAt_iff.1 hheld 0 Byte.dollar rfl
  have hlength : pos + (Byte.dollar :: digits).length = pos + 1 + digits.length := by
    rw [List.length_cons]
    omega
  have hseek : t.seek endsWord (pos + 1) = pos + (Byte.dollar :: digits).length := by
    rw [holdsAt, Bool.and_eq_true] at hheld
    rw [hlength] at hend ⊢
    exact seek_of_wordEnds hheld.2 hends hend
  refine ⟨hb, ?_, ?_⟩
  · rw [inGap_of_getElem? hb]
    rfl
  · show t.nagAt pos = _
    unfold nagAt
    simp only [hseek, word_of_holdsAt hheld, hread]

/-- A glyph that is written as a numeral is read back. -/
theorem tokenAt_of_numeral {nag : Nag} (hheld : t.holdsAt pos (utf8 nag.numeral) = true)
    (hend : t.WordEnds (pos + (utf8 nag.numeral).length)) :
    t[pos]? = some Byte.dollar ∧ t.inGap pos = false ∧
      t.tokenAt pos Byte.dollar = (.nag nag, pos + (utf8 nag.numeral).length) := by
  obtain ⟨digits, hnumeral, hends, hread⟩ := numeral_spec nag
  rw [hnumeral] at hheld hend ⊢
  exact tokenAt_of_dollar hread hends hheld hend

/-! ## Comments -/

/-- Text that has no blank at its ends is not trimmed. -/
theorem trimmed_of_trimmedBytes (hheld : t.holdsAt pos word = true) (htrimmed : TrimmedBytes word) :
    t.trimmed ⟨pos, pos + word.length⟩ = ⟨pos, pos + word.length⟩ := by
  obtain ⟨first, hfirst, hfirstBlank⟩ := (Option.any_eq_true ..).1 htrimmed.first
  obtain ⟨last, hlast, hlastBlank⟩ := (Option.any_eq_true ..).1 htrimmed.last
  rw [List.head?_eq_getElem?] at hfirst
  rw [List.getLast?_eq_getElem?] at hlast
  have hnonempty := (List.getElem?_eq_some_iff.1 hfirst).1
  have hstart : (t.upTo (pos + word.length)).seek (!Byte.isBlank ·) pos = pos := by
    refine seek_of_match (b := first) ?_ hfirstBlank
    rw [getElem?_upTo, if_pos (by omega)]
    exact holdsAt_iff.1 hheld 0 first hfirst
  have hbehind : t[pos + (word.length - 1)]? = some last := holdsAt_iff.1 hheld _ last hlast
  have hstop : t.trimEnd pos (pos + word.length) = pos + word.length := by
    obtain ⟨n, hn⟩ : ∃ n, pos + word.length = n + 1 := ⟨pos + word.length - 1, by omega⟩
    rw [hn, trimEnd, show n = pos + (word.length - 1) by omega, hbehind, Option.any_some,
      if_neg (by simpa using hlastBlank)]
  simp only [trimmed, hstart, hstop]

/-- A comment is written between braces. -/
theorem utf8_comment (text : String) :
    utf8 (Word.comment text).text = (Byte.openBrace :: utf8 text) ++ [Byte.closeBrace] := by
  rw [Word.text, utf8_append, utf8_append]
  rfl

/-- A legible comment is one lexeme. -/
theorem lexemesAt_of_comment {text : String} (hlegible : (Word.comment text).Legible)
    (hheld : t.holdsAt pos (utf8 (Word.comment text).text) = true) :
    t.lexemesAt pos = .comment ⟨pos + 1, pos + 1 + (utf8 text).length⟩ text ::
      t.lexemesAt (pos + (utf8 (Word.comment text).text).length) := by
  obtain ⟨htrimmed, hclean⟩ := hlegible
  rw [utf8_comment, holdsAt_append, Bool.and_eq_true] at hheld
  obtain ⟨hopened, hclosed⟩ := hheld
  rw [holdsAt, Bool.and_eq_true, beq_iff_eq] at hclosed
  replace hclosed := hclosed.1
  -- The comment ends at its own brace, as there is none in it.
  have hseek : t.seek (· == Byte.closeBrace) pos = pos + (Byte.openBrace :: utf8 text).length := by
    refine seek_of_holdsAt hopened ?_ hclosed rfl
    intro b hb
    obtain rfl | hmem := List.mem_cons.1 hb
    · rfl
    · exact beq_false_of_ne fun heq => hclean (heq ▸ hmem)
  -- Nothing is trimmed off a text that begins and ends without a blank.
  have hread : t.readTrimmed ⟨pos + 1, pos + 1 + (utf8 text).length⟩ = text := by
    rw [holdsAt, Bool.and_eq_true] at hopened
    rw [readTrimmed, trimmed_of_trimmedBytes hopened.2 htrimmed, read, slice_eq_word,
      word_of_holdsAt hopened.2, toByteArray_utf8, decode_toByteArray]
  have hlength : pos + (Byte.openBrace :: utf8 text).length = pos + 1 + (utf8 text).length := by
    rw [List.length_cons]
    omega
  have hb : t[pos]? = some Byte.openBrace := holdsAt_iff.1 hopened 0 _ rfl
  have hlexemes := lexemesAt_of_openBrace hb (hseek ▸ lt_size_of_getElem? hclosed)
  rw [hseek, hlength, hread] at hlexemes
  rw [hlexemes, utf8_comment, List.length_append, ← Nat.add_assoc, hlength]
  rfl

/-! ## Spelled words -/

/-- What stands here is set off from what stands in front of it: the text ends, or a blank or a
closing parenthesis follows. -/
def SetOff (t : Text) (pos : Nat) : Prop :=
  pos = t.size ∨ t[pos]? = some Byte.space ∨ t[pos]? = some Byte.closeParen

/-- Where words are set off from each other a word ends. -/
theorem SetOff.wordEnds (h : t.SetOff pos) : t.WordEnds pos := by
  rcases h with hsize | hb | hb
  · exact .inl hsize
  · exact .inr ⟨_, hb, rfl⟩
  · exact .inr ⟨_, hb, rfl⟩

/-- Behind a word the next one is set off, or nothing follows. -/
theorem setOff_of_spell {words : List Word} (hheld : t.holdsAt pos (Word.spell true words) = true)
    (hend : pos + (Word.spell true words).length = t.size) : t.SetOff pos := by
  cases words with
  | nil => exact .inl hend
  | cons w ws =>
    right
    rw [Word.spell] at hheld
    by_cases hclosing : w.isClosing = true
    · cases w with
      | closing => exact .inr (holdsAt_iff.1 hheld 0 _ rfl)
      | _ => cases hclosing
    · rw [Bool.not_eq_true] at hclosing
      rw [hclosing] at hheld
      exact .inl (holdsAt_iff.1 hheld 0 _ rfl)

/-- What holds of the lexemes of a text that words are spelled in, if it holds of no lexemes and
goes on to hold over the lexemes that each word is read as. -/
theorem lexemesAt_of_spelled {words : List Word} (f : Word → Word)
    (Holds : List Lexeme → List Word → Prop) (hnil : Holds [] [])
    (hword : ∀ w ∈ words, ∀ pos, t.holdsAt pos (utf8 (f w).text) = true →
      ((f w).isOpening = true ∨ t.SetOff (pos + (utf8 (f w).text).length)) →
      ∃ lexemes, t.lexemesAt pos = lexemes ++ t.lexemesAt (pos + (utf8 (f w).text).length) ∧
        ∀ rest ws, Holds rest ws → Holds (lexemes ++ rest) (w :: ws))
    (blank : Bool) (hheld : t.holdsAt pos (Word.spell blank (words.map f)) = true)
    (hend : pos + (Word.spell blank (words.map f)).length = t.size) :
    Holds (t.lexemesAt pos) words := by
  -- By induction on the words, with `blank` saying whether the next may need one in front.
  induction words generalizing pos blank with
  | nil =>
    have hsize : t.size ≤ pos := Nat.le_of_eq hend.symm
    rw [lexemesAt_of_size_le hsize]
    exact hnil
  | cons w ws ih =>
    -- Where the blank in front of the word has been passed, if there is one.
    have hrest (pos : Nat)
        (hheld : t.holdsAt pos
          (utf8 (f w).text ++ Word.spell (!(f w).isOpening) (ws.map f)) = true)
        (hend : pos +
          (utf8 (f w).text ++ Word.spell (!(f w).isOpening) (ws.map f)).length = t.size) :
        Holds (t.lexemesAt pos) (w :: ws) := by
      rw [holdsAt_append, Bool.and_eq_true] at hheld
      rw [List.length_append, ← Nat.add_assoc] at hend
      have hbehind : (f w).isOpening = true ∨ t.SetOff (pos + (utf8 (f w).text).length) := by
        cases hopening : (f w).isOpening with
        | true => exact .inl rfl
        | false =>
          rw [hopening] at hheld hend
          exact .inr (setOff_of_spell hheld.2 hend)
      obtain ⟨lexemes, hlexemes, hholds⟩ := hword w List.mem_cons_self pos hheld.1 hbehind
      rw [hlexemes]
      exact hholds _ _ (ih (fun w hw => hword w (List.mem_cons_of_mem _ hw)) _ hheld.2 hend)
    rw [List.map_cons, Word.spell, List.append_assoc] at hheld hend
    cases hblank : blank && !(f w).isClosing with
    | false =>
      rw [hblank] at hheld hend
      exact hrest pos hheld hend
    | true =>
      rw [hblank, if_pos rfl] at hheld hend
      have hspace : t[pos]? = some Byte.space := holdsAt_iff.1 hheld 0 _ rfl
      rw [holdsAt_append, Bool.and_eq_true] at hheld
      rw [List.length_append, ← Nat.add_assoc] at hend
      rw [lexemesAt_of_isBlank hspace rfl]
      exact hrest (pos + 1) hheld.2 hend

/-- A legible word is one lexeme. -/
theorem lexemesAt_of_word {w : Word} (hlegible : w.Legible)
    (hheld : t.holdsAt pos (utf8 w.text) = true)
    (hend : w.isOpening = true ∨ t.WordEnds (pos + (utf8 w.text).length)) :
    ∃ lexeme, lexeme.word? = some w ∧
      t.lexemesAt pos = lexeme :: t.lexemesAt (pos + (utf8 w.text).length) := by
  -- Each kind of word begins a lexeme of its kind and is read to its end.
  cases w with
  | opening =>
    have hb : t[pos]? = some Byte.openParen := holdsAt_iff.1 hheld 0 _ rfl
    exact ⟨_, rfl, lexemesAt_of_not_inGap hb (by rw [inGap_of_getElem? hb]; rfl)⟩
  | closing =>
    have hb : t[pos]? = some Byte.closeParen := holdsAt_iff.1 hheld 0 _ rfl
    exact ⟨_, rfl, lexemesAt_of_not_inGap hb (by rw [inGap_of_getElem? hb]; rfl)⟩
  | comment text =>
    exact ⟨_, rfl, lexemesAt_of_comment hlegible hheld⟩
  | san text wellFormed =>
    obtain ⟨first, hb, hgap, htoken⟩ :=
      tokenAt_of_legibleMove hlegible hheld (hend.resolve_left nofun)
    have hlexemes := lexemesAt_of_not_inGap hb hgap
    rw [htoken, toByteArray_utf8, decode_toByteArray] at hlexemes
    exact ⟨_, rfl, hlexemes⟩
  | nag nag =>
    obtain ⟨hb, hgap, htoken⟩ := tokenAt_of_numeral hheld (hend.resolve_left nofun)
    have hlexemes := lexemesAt_of_not_inGap hb hgap
    rw [htoken] at hlexemes
    exact ⟨_, rfl, hlexemes⟩

/-- Legible words that take up the rest of the text are read back one after the other. -/
theorem lexemesAt_of_spell {words : List Word} (hlegible : ∀ w ∈ words, w.Legible) (blank : Bool)
    (hheld : t.holdsAt pos (Word.spell blank words) = true)
    (hend : pos + (Word.spell blank words).length = t.size) :
    (t.lexemesAt pos).map Lexeme.word? = words.map some := by
  rw [← List.map_id words] at hheld hend
  refine lexemesAt_of_spelled id (fun lexemes words => lexemes.map Lexeme.word? = words.map some)
    rfl ?_ blank hheld hend
  intro w hw pos hheld hbehind
  obtain ⟨lexeme, hlexeme, hlexemes⟩ :=
    lexemesAt_of_word (hlegible w hw) hheld (hbehind.imp_right SetOff.wordEnds)
  refine ⟨[lexeme], hlexemes, fun rest ws hrest => ?_⟩
  rw [List.singleton_append, List.map_cons, List.map_cons, hlexeme, hrest]

end Text

end Scorebook
