import Scorebook.Proofs.Movetext.Legible
import Scorebook.Proofs.Movetext.Words
import Scorebook.Proofs.San

/-!
# Glyphs written directly behind a move

A symbol may stand directly behind a move, and only the notation tells where the move ends: the
shortest symbol is split off that leaves a move. `Text.glyph_behind_move` says which symbols are
split off whole. A symbol that starts with a mark that ends words always is. Any other is unless the
move goes on into it: a promotion goes on into whatever follows, for nothing behind the letter of a
promotion is looked at, and a sign of check may be the first half of `+=`.
-/

namespace Scorebook

namespace Text

variable {move symbol rest : List UInt8} {nag : Nag}

/-- The null move that starts with a letter. -/
def zNull : List UInt8 :=
  [0x5a, 0x30]

/-- A move as the scanners come upon it where a symbol stands behind it: a word that starts with a
letter and does not end in a sign of check or mate. -/
structure LetteredMove (move : List UInt8) : Prop where
  starts : move.head?.any Byte.isLetter = true
  ends : ∀ b ∈ move, endsWord b = false
  isMove : Text.isMove move = true
  unsigned : move.getLast? ≠ some Byte.plus ∧ move.getLast? ≠ some 0x23

/-- What makes a lettered move can be checked. -/
theorem letteredMove_iff : LetteredMove move ↔ move.head?.any Byte.isLetter = true ∧
    move.any endsWord = false ∧ Text.isMove move = true ∧
      move.getLast? ≠ some Byte.plus ∧ move.getLast? ≠ some 0x23 := by
  constructor
  · intro h
    exact ⟨h.starts, List.any_eq_false.2 fun b hb => Bool.eq_false_iff.1 (h.ends b hb), h.isMove,
      h.unsigned⟩
  · rintro ⟨hstarts, hends, hmove, hunsigned⟩
    exact ⟨hstarts, fun b hb => Bool.eq_false_iff.2 (List.any_eq_false.1 hends b hb), hmove,
      hunsigned⟩

instance (move : List UInt8) : Decidable (LetteredMove move) :=
  decidable_of_iff _ letteredMove_iff.symm

/-- The word does not go on into the symbol behind it: the symbol starts with a byte that ends
words, or the word is no promotion and the symbol not the sign of check with an equals sign. -/
def SplitsOff (move symbol : List UInt8) : Prop :=
  symbol.head?.any endsWord = true ∨
    Byte.equals ∉ move ∧ (symbol = [Byte.plus, Byte.equals] → move = zNull)

instance (move symbol : List UInt8) : Decidable (SplitsOff move symbol) :=
  inferInstanceAs (Decidable (_ ∨ _))

/-- Less a sign of check these bytes are neither plain nor start a promotion, and castling does not
end in them. -/
def isForeign (more : List UInt8) : Bool :=
  let more := San.dropCheck (latin1 more)
  !San.isPromotion (more.dropWhile San.isPlain) && !more.getLast?.all (· == 'O')

/-- Different bytes are different characters. -/
theorem ofUInt8_inj {b c : UInt8} (h : Char.ofUInt8 b = Char.ofUInt8 c) : b = c := by
  have hval : b.toUInt32 = c.toUInt32 := congrArg Char.val h
  exact UInt8.toUInt32_inj.1 hval

theorem latin1_inj {xs ys : List UInt8} : latin1 xs = latin1 ys ↔ xs = ys :=
  List.map_inj_right fun _ _ => ofUInt8_inj

/-- An equals sign is an equals sign in either form. -/
theorem equals_mem_latin1_iff {bytes : List UInt8} : '=' ∈ latin1 bytes ↔ Byte.equals ∈ bytes := by
  refine ⟨fun hmem => ?_, fun hmem => List.mem_map.2 ⟨_, hmem, rfl⟩⟩
  obtain ⟨b, hb, heq⟩ := List.mem_map.1 hmem
  obtain rfl : b = Byte.equals := ofUInt8_inj heq
  exact hb

/-- The last character is the last byte. -/
theorem getLast?_latin1 {bytes : List UInt8} {b : UInt8}
    (h : (latin1 bytes).getLast? = some (Char.ofUInt8 b)) : bytes.getLast? = some b := by
  rw [latin1, List.getLast?_map] at h
  obtain ⟨c, hc, heq⟩ := Option.map_eq_some_iff.1 h
  rw [hc, ofUInt8_inj heq]

namespace LetteredMove

variable (h : LetteredMove move)

include h

/-- A move is not empty. -/
theorem ne_nil : move ≠ [] := by
  rintro rfl
  cases h.starts

/-- A lettered move starts with no castling. -/
theorem exists_head? : ∃ c, (latin1 move).head? = some c ∧ c ≠ '0' ∧ c ≠ '-' := by
  obtain ⟨b, hb, hletter⟩ := (Option.any_eq_true ..).1 h.starts
  refine ⟨Char.ofUInt8 b, by rw [latin1, List.head?_map, hb]; rfl, ?_, ?_⟩
  · intro heq
    obtain rfl : b = Byte.zero := ofUInt8_inj heq
    cases hletter
  · intro heq
    obtain rfl : b = Byte.minus := ofUInt8_inj heq
    cases hletter

/-- A lettered move has no check to drop. -/
theorem dropCheck_latin1 : San.dropCheck (latin1 move) = latin1 move :=
  San.dropCheck_of_getLast? ⟨fun hplus => h.unsigned.1 (getLast?_latin1 hplus),
    fun hmate => h.unsigned.2 (getLast?_latin1 hmate)⟩

/-- The word is the null move or a move without a sign. -/
theorem isBareMove : latin1 move = ['Z', '0'] ∨ San.isBareMove (latin1 move) = true := by
  obtain ⟨c, hc, hzero, hminus⟩ := h.exists_head?
  have hmove : San.isMove (latin1 move) = true := h.isMove
  rw [San.isMove_of_head? hc hzero hminus, h.dropCheck_latin1, Bool.or_eq_true, beq_iff_eq] at hmove
  exact hmove

/-- What is a move among the words that go on behind a move. -/
theorem isMove_append {more : List UInt8} (hne : more ≠ []) :
    Text.isMove (move ++ more) = San.isBareMove (latin1 move ++ San.dropCheck (latin1 more)) := by
  obtain ⟨c, hc, hzero, hminus⟩ := h.exists_head?
  have hne' : latin1 more ≠ [] := mt List.map_eq_nil_iff.1 hne
  have hhead : (latin1 move ++ latin1 more).head? = some c := by
    rw [List.head?_append, hc, Option.some_or]
  have hnull : (latin1 move ++ latin1 more == ['Z', '0']) = false := by
    rw [beq_eq_false_iff_ne]
    intro heq
    rcases List.append_eq_cons_iff.1 heq with ⟨hnil, -⟩ | ⟨behind, hmove, hbehind⟩
    · exact h.ne_nil (List.map_eq_nil_iff.1 hnil)
    · rcases List.append_eq_singleton_iff.1 hbehind.symm with ⟨rfl, -⟩ | ⟨-, hnil⟩
      · have hz : San.isMove ['Z'] = true := hmove ▸ h.isMove
        cases hz
      · exact hne' hnil
  rw [Text.isMove, latin1_append, San.isMove_of_head? hhead hzero hminus, hnull, Bool.false_or,
    San.dropCheck_append hne']

/-- A promotion takes in what follows it. -/
theorem isMove_append_of_equals (hequals : Byte.equals ∈ move) {more : List UInt8}
    (hne : more ≠ []) : Text.isMove (move ++ more) = true := by
  have hmem := equals_mem_latin1_iff.2 hequals
  rw [h.isMove_append hne]
  rcases h.isBareMove with hnull | hbare
  · rw [hnull] at hmem
    exact absurd hmem (by decide)
  · exact San.isBareMove_append hbare hmem _

/-- Any move but a null move may be signed. -/
theorem isMove_append_plus : Text.isMove (move ++ [Byte.plus]) = true ↔ move ≠ zNull := by
  have hsign : San.dropCheck (latin1 [Byte.plus]) = [] := rfl
  have hnull : latin1 move = ['Z', '0'] ↔ move = zNull := @latin1_inj move zNull
  rw [h.isMove_append (List.cons_ne_nil _ _), hsign, List.append_nil, Ne, ← hnull]
  constructor
  · intro hbare heq
    rw [heq] at hbare
    cases hbare
  · exact h.isBareMove.resolve_left

/-- A move that is no promotion does not go on with such bytes. -/
theorem isMove_append_eq_false (hequals : Byte.equals ∉ move) {more : List UInt8}
    (hforeign : isForeign more = true) : Text.isMove (move ++ more) = false := by
  simp only [isForeign, Bool.and_eq_true, Bool.not_eq_true'] at hforeign
  obtain ⟨hpromotion, hlast⟩ := hforeign
  have hne : more ≠ [] := by
    rintro rfl
    cases hlast
  rw [h.isMove_append hne]
  refine San.isBareMove_append_eq_false (mt equals_mem_latin1_iff.1 hequals) hpromotion ?_
  obtain ⟨c, hc, -, hminus⟩ := h.exists_head?
  generalize San.dropCheck (latin1 more) = behind at hlast
  -- The null move stands alone, and castling ends with a letter.
  have hnotNull : latin1 move ++ behind ≠ ['-', '-'] := by
    intro heq
    have hhead := congrArg List.head? heq
    rw [List.head?_append, hc] at hhead
    exact hminus (Option.some.inj hhead)
  have hnotCastling : (latin1 move ++ behind).getLast? ≠ some 'O' := by
    rw [List.getLast?_append]
    cases hbehind : behind.getLast? with
    | none =>
      rw [hbehind] at hlast
      cases hlast
    | some last =>
      rw [hbehind] at hlast
      rintro heq
      rw [Option.some.inj heq] at hlast
      cases hlast
  simp only [San.fixedForms, List.mem_cons, List.not_mem_nil, or_false, not_or]
  exact ⟨hnotNull, fun heq => hnotCastling (heq ▸ rfl), fun heq => hnotCastling (heq ▸ rfl)⟩

end LetteredMove

/-! ## Symbols -/

/-- What a symbol that starts with no end of a word starts with is foreign to moves, a plus sign
apart. -/
theorem isForeign_take_symbol : ∀ s ∈ Nag.symbols, s.1.head?.any endsWord = false →
    ∀ k < 4, 0 < k → k ≤ s.1.length →
      s.1.take k = [Byte.plus] ∨ isForeign (s.1.take k) = true := by
  decide

/-- Only one symbol is a plus and another symbol. -/
theorem symbol_of_plus : ∀ s ∈ Nag.symbols, s.1.take 1 = [Byte.plus] →
    Nag.isSymbol (s.1.drop 1) = true → s.1 = [Byte.plus, Byte.equals] := by
  decide

/-- A symbol that goes on with a word does so to its end. -/
theorem not_endsWord_of_symbol : ∀ s ∈ Nag.symbols, s.1.head?.any endsWord = false →
    s.1.any endsWord = false := by
  decide

/-- Symbols are short. -/
theorem length_symbol : ∀ s ∈ Nag.symbols, 0 < s.1.length ∧ s.1.length < 4 := by
  decide

/-- Each symbol of the table is one. -/
theorem isSymbol_symbol : ∀ s ∈ Nag.symbols, Nag.isSymbol s.1 = true := by
  decide

/-- Each symbol of the table is found where it stands. -/
theorem symbolAt?_symbol : ∀ s ∈ Nag.symbols, Nag.symbolAt? s.1 = some (s.2, s.1.length) := by
  decide

/-- The shortest symbol that leaves a move is split off. -/
theorem trailingSymbol?_eq_some {word : List UInt8} {n : Nat} (hn : n ∈ Nag.symbolLengths)
    (hlt : n < word.length) (hsymbol : Nag.isSymbol (word.drop (word.length - n)) = true)
    (hmove : isMove (word.take (word.length - n)) = true)
    (hfirst : ∀ m, 0 < m → m < n → Nag.isSymbol (word.drop (word.length - m)) = true →
      isMove (word.take (word.length - m)) = false) :
    trailingSymbol? word = some n := by
  obtain ⟨before, behind, hsplit, hbefore⟩ : ∃ before behind,
      Nag.symbolLengths = before ++ n :: behind ∧ ∀ m ∈ before, 0 < m ∧ m < n := by
    simp only [Nag.symbolLengths, List.mem_cons, List.not_mem_nil, or_false] at hn
    rcases hn with rfl | rfl | rfl
    · exact ⟨[], [2, 3], rfl, by decide⟩
    · exact ⟨[1], [3], rfl, by decide⟩
    · exact ⟨[1, 2], [], rfl, by decide⟩
  rw [trailingSymbol?, List.find?_eq_some_iff_append]
  refine ⟨by simp [hlt, hsymbol, hmove], before, behind, hsplit, fun m hm => ?_⟩
  obtain ⟨hpos, hless⟩ := hbefore m hm
  cases hshorter : Nag.isSymbol (word.drop (word.length - m)) with
  | false => simp
  | true => simp [hfirst m hpos hless hshorter]

/-- What is cut off the end of a move and its symbol, if it is no longer than the symbol. -/
theorem drop_take_append {move symbol : List UInt8} {m : Nat} (hm : m ≤ symbol.length) :
    (move ++ symbol).drop ((move ++ symbol).length - m) = symbol.drop (symbol.length - m) ∧
      (move ++ symbol).take ((move ++ symbol).length - m) =
        move ++ symbol.take (symbol.length - m) := by
  have hlength : (move ++ symbol).length - m = move.length + (symbol.length - m) := by
    rw [List.length_append]
    omega
  rw [hlength, List.drop_length_add_append, List.take_length_add_append]
  exact ⟨rfl, rfl⟩

/-- The symbol that is split off a move is the one behind it, unless a shorter cut leaves a move. -/
theorem LetteredMove.trailingSymbol? (h : LetteredMove move) (hmem : (symbol, nag) ∈ Nag.symbols)
    (hhead : symbol.head?.any endsWord = false) (hequals : Byte.equals ∉ move)
    (hplus : symbol = [Byte.plus, Byte.equals] → move = zNull) :
    Text.trailingSymbol? (move ++ symbol) = some symbol.length := by
  have hlength : 0 < symbol.length ∧ symbol.length < 4 := length_symbol _ hmem
  have hmove := List.length_pos_iff.2 h.ne_nil
  obtain ⟨hdrop, htake⟩ := @drop_take_append move symbol _ (Nat.le_refl _)
  rw [Nat.sub_self, List.drop_zero] at hdrop
  rw [Nat.sub_self, List.take_zero, List.append_nil] at htake
  -- The symbol is the shortest suffix that leaves a move: no shorter one does.
  refine trailingSymbol?_eq_some (Nag.length_mem_symbolLengths _ hmem) ?_ ?_ ?_ ?_
  · rw [List.length_append]
    omega
  · rw [hdrop]
    exact isSymbol_symbol _ hmem
  · rw [htake]
    exact h.isMove
  · intro m hpos hlt hshorter
    obtain ⟨hdrop, htake⟩ := @drop_take_append move symbol m (Nat.le_of_lt hlt)
    rw [hdrop] at hshorter
    rw [htake]
    rcases isForeign_take_symbol _ hmem hhead (symbol.length - m) (by omega) (by omega)
      (Nat.sub_le ..) with hsign | hforeign
    · -- Only `+=` starts with a sign of check and goes on as a symbol.
      have hone : symbol.length - m = 1 := by
        have hcount := congrArg List.length hsign
        rwa [List.length_take_of_le (Nat.sub_le ..)] at hcount
      rw [hone] at hsign hshorter ⊢
      have hnull := hplus (symbol_of_plus _ hmem hsign hshorter)
      rw [hsign, Bool.eq_false_iff]
      exact fun hsigned => h.isMove_append_plus.1 hsigned hnull
    · exact h.isMove_append_eq_false hequals hforeign

/-- A move and a symbol that starts with no end of a word are a move together if the move is a
promotion. -/
theorem LetteredMove.isMove_append_symbol (h : LetteredMove move)
    (hmem : (symbol, nag) ∈ Nag.symbols) (hhead : symbol.head?.any endsWord = false) :
    Text.isMove (move ++ symbol) = true ↔ Byte.equals ∈ move := by
  have hlength : 0 < symbol.length ∧ symbol.length < 4 := length_symbol _ hmem
  refine ⟨fun hmove => Decidable.by_contra fun hequals => ?_,
    fun hequals => h.isMove_append_of_equals hequals (List.length_pos_iff.1 hlength.1)⟩
  have hwhole := isForeign_take_symbol _ hmem hhead symbol.length hlength.2 hlength.1
    (Nat.le_refl _)
  rw [List.take_length] at hwhole
  rcases hwhole with hplus | hforeign
  · have hsign : Nag.isSymbol symbol = true := isSymbol_symbol _ hmem
    rw [hplus] at hsign
    exact absurd hsign (by decide)
  · rw [h.isMove_append_eq_false hequals hforeign] at hmove
    cases hmove

/-- Behind any move but a null move the equals sign alone is split off, and the move is one that
gives check. -/
theorem LetteredMove.trailingSymbol?_plus_equals (h : LetteredMove move) (hnull : move ≠ zNull) :
    Text.trailingSymbol? (move ++ [Byte.plus, Byte.equals]) = some 1 := by
  obtain ⟨hdrop, htake⟩ := @drop_take_append move [Byte.plus, Byte.equals] 1 (by decide)
  refine trailingSymbol?_eq_some (by decide) ?_ ?_ ?_ fun m hpos hlt => by omega
  · simp
  · rw [hdrop]
    decide
  · rw [htake]
    exact h.isMove_append_plus.2 hnull

/-! ## Tokens -/

variable {t : Text} {pos : Nat}

/-- A word that is a move with a symbol behind it. -/
theorem moveAt_of_trailingSymbol? {word : List UInt8} {n : Nat} (hheld : t.holdsAt pos word = true)
    (hnone : ∀ b ∈ word, endsWord b = false) (hend : t.WordEnds (pos + word.length))
    (hmove : isMove word = false) (hsymbol : trailingSymbol? word = some n) :
    t.moveAt pos = (.san (decode (word.take (word.length - n)).toByteArray) true,
      pos + (word.length - n)) := by
  have hseek := seek_of_wordEnds hheld hnone hend
  have hword := word_of_holdsAt hheld
  have hn := List.find?_some hsymbol
  simp only [Bool.and_eq_true, decide_eq_true_eq] at hn
  have hstop : pos + word.length - n = pos + (word.length - n) := by omega
  have hread : t.read ⟨pos, pos + (word.length - n)⟩ =
      decode (word.take (word.length - n)).toByteArray := by
    rw [← List.take_append_drop (word.length - n) word, holdsAt_append, Bool.and_eq_true] at hheld
    have hprefix := read_of_holdsAt hheld.1
    rwa [List.length_take_of_le (Nat.sub_le ..)] at hprefix
  unfold moveAt
  simp only [hseek, hword, hmove, hsymbol, hstop, hread]
  rfl

/-- The bytes that may follow a glyph here: a blank, the end of a variation or the start of a
comment. -/
def endsGlyph (b : UInt8) : Bool :=
  Byte.isBlank b || b == Byte.closeParen || b == Byte.openBrace

/-- What ends a glyph ends a stretch of movetext. -/
theorem endsStretch_of_endsGlyph {b : UInt8} (h : endsGlyph b = true) : endsStretch b = true := by
  simp only [endsGlyph, Bool.or_eq_true] at h
  rcases h with (h | h) | h <;> simp [endsStretch, h]

/-- What ends a glyph ends a word. -/
theorem wordEnds_of_endsGlyph (hle : pos ≤ t.size) (h : t[pos]?.all endsGlyph = true) :
    t.WordEnds pos := by
  rcases Nat.eq_or_lt_of_le hle with heq | hlt
  · exact .inl heq
  · obtain ⟨b, hb⟩ := exists_getElem? hlt
    rw [hb] at h
    exact .inr ⟨b, hb, endsWord_of_endsStretch (endsStretch_of_endsGlyph h)⟩

/-- No byte of another meaning starts a symbol. -/
theorem head?_symbol : ∀ s ∈ Nag.symbols, ∃ first ∈ s.1.head?,
    (Byte.isBlank first || first == Byte.percent || first == Byte.semicolon ||
      first == Byte.openBrace) = false ∧
    ∀ (t : Text) pos, t.tokenAt pos first = t.symbolAt pos first := by
  have htable : ∀ s ∈ Nag.symbols, s.1.head?.any (fun first =>
      !(Byte.isBlank first || first == Byte.percent || first == Byte.semicolon ||
          first == Byte.openBrace) &&
        !(first == Byte.openParen || first == Byte.closeParen || first == Byte.star ||
          first == Byte.dollar || Byte.isDigit first ||
          (Byte.isLetter first || first == Byte.atSign))) = true := by
    decide
  intro s hs
  obtain ⟨first, hfirst, hplain⟩ := (Option.any_eq_true ..).1 (htable s hs)
  simp only [Bool.and_eq_true, Bool.not_eq_true', Bool.or_eq_false_iff,
    beq_eq_false_iff_ne] at hplain
  refine ⟨first, hfirst, by simp [hplain.1], fun t pos => ?_⟩
  simp [tokenAt, hplain.2]

/-- A symbol is read as its glyph wherever a glyph may end behind it. -/
theorem lexemesAt_of_symbol (hmem : (symbol, nag) ∈ Nag.symbols)
    (hheld : t.holdsAt pos symbol = true) (hbehind : t[pos + symbol.length]?.all endsGlyph = true) :
    t.lexemesAt pos = .token (.nag nag) ⟨pos, pos + symbol.length⟩ ::
      t.lexemesAt (pos + symbol.length) := by
  obtain ⟨first, hfirst, hgap, htoken⟩ := head?_symbol _ hmem
  have hb : t[pos]? = some first := holdsAt_iff.1 hheld 0 first (List.head?_eq_getElem? ▸ hfirst)
  have hlength : 0 < symbol.length ∧ symbol.length < 4 := length_symbol _ hmem
  have hreach : symbol.length ≤ symbolReach := Nat.le_of_lt_succ hlength.2
  have hread : Nag.symbolAt? (t.word ⟨pos, pos + symbolReach⟩) = some (nag, symbol.length) := by
    rw [word_eq_append hheld hreach, symbolAt?_append, symbolAt?_symbol _ hmem]
    rw [head?_word]
    split
    · rw [Option.all_eq_true]
      exact fun b hb => endsStretch_of_endsGlyph ((Option.all_eq_true ..).1 hbehind b hb)
    · rfl
  have hplain : t.inGap pos = false := by
    simp only [Bool.or_eq_false_iff] at hgap
    simp [inGap_of_getElem? hb, hgap]
  rw [lexemesAt_of_not_inGap hb hplain, htoken, symbolAt, hread]

/-- A move is one token, as long as it is read. -/
theorem LetteredMove.lexemesAt (h : LetteredMove move) (hheld : t.holdsAt pos move = true) :
    t.lexemesAt pos = .token (t.moveAt pos).1 ⟨pos, (t.moveAt pos).2⟩ ::
      t.lexemesAt (t.moveAt pos).2 := by
  obtain ⟨first, hfirst, hletter⟩ := (Option.any_eq_true ..).1 h.starts
  have hb : t[pos]? = some first := holdsAt_iff.1 hheld 0 first (List.head?_eq_getElem? ▸ hfirst)
  rw [lexemesAt_of_not_inGap hb (inGap_of_startsMove hb (by rw [hletter]; rfl)),
    tokenAt_of_isLetter (by rw [hletter]; rfl)]

/-- A move ends where a word does. -/
theorem LetteredMove.moveAt (h : LetteredMove move) (hheld : t.holdsAt pos move = true)
    (hend : t.WordEnds (pos + move.length)) :
    t.moveAt pos = (.san (decode move.toByteArray) true, pos + move.length) :=
  moveAt_of_legible hheld h.ends hend h.isMove nofun

/-- A move with a symbol behind it ends in front of the symbol exactly if it does not go on into
it. -/
theorem LetteredMove.moveAt_of_symbol (h : LetteredMove move) (hmem : (symbol, nag) ∈ Nag.symbols)
    (hheld : t.holdsAt pos (move ++ symbol) = true)
    (hbehind : t.WordEnds (pos + (move ++ symbol).length)) :
    (SplitsOff move symbol →
        t.moveAt pos = (.san (decode move.toByteArray) true, pos + move.length)) ∧
      (¬SplitsOff move symbol → (t.moveAt pos).2 ≠ pos + move.length) := by
  have hlength : 0 < symbol.length ∧ symbol.length < 4 := length_symbol _ hmem
  -- Either the symbol ends the word, or it has to be split off the end of the word.
  cases hhead : symbol.head?.any endsWord with
  | true =>
    obtain ⟨b, hb, hends⟩ := (Option.any_eq_true ..).1 hhead
    rw [holdsAt_append, Bool.and_eq_true] at hheld
    have hbyte := holdsAt_iff.1 hheld.2 0 b (List.head?_eq_getElem? ▸ hb)
    exact ⟨fun _ => h.moveAt hheld.1 (.inr ⟨b, hbyte, hends⟩), fun hnot => absurd (.inl hhead) hnot⟩
  | false =>
    have hnone : ∀ b ∈ move ++ symbol, endsWord b = false :=
      List.forall_mem_append.2 ⟨h.ends, fun b hb => Bool.eq_false_iff.2
        (List.any_eq_false.1 (not_endsWord_of_symbol _ hmem hhead) b hb)⟩
    -- It is split off unless a promotion follows or a check may have been meant.
    have hmark : ¬ symbol.head?.any endsWord = true := by simp [hhead]
    rw [SplitsOff, or_iff_right hmark]
    by_cases hequals : Byte.equals ∈ move
    · have hread := moveAt_of_legible hheld hnone hbehind
        ((h.isMove_append_symbol hmem hhead).2 hequals) nofun
      refine ⟨fun hsplits => absurd hequals hsplits.1, fun _ => ?_⟩
      rw [hread, List.length_append]
      dsimp only
      omega
    · have hmove := Bool.eq_false_iff.2 (mt (h.isMove_append_symbol hmem hhead).1 hequals)
      by_cases hplus : symbol = [Byte.plus, Byte.equals] → move = zNull
      · have hread := moveAt_of_trailingSymbol? hheld hnone hbehind hmove
          (h.trailingSymbol? hmem hhead hequals hplus)
        rw [List.length_append, Nat.add_sub_cancel, List.take_left] at hread
        exact ⟨fun _ => hread, fun hnot => absurd ⟨hequals, hplus⟩ hnot⟩
      · refine ⟨fun hsplits => absurd hsplits.2 hplus, fun _ => ?_⟩
        obtain ⟨rfl, hnull⟩ := Classical.not_imp.1 hplus
        rw [moveAt_of_trailingSymbol? hheld hnone hbehind hmove
          (h.trailingSymbol?_plus_equals hnull), List.length_append]
        dsimp only [List.length_cons, List.length_nil]
        omega

/-! ## The statement -/

/-- Movetext is read as this move and the glyph that stands in this range, and goes on behind it. -/
def ReadsGlyph (t : Text) (move : List UInt8) (nag : Nag) (s : Span) : Prop :=
  t.lexemesAt 0 = .token (.san (decode move.toByteArray) true) ⟨0, move.length⟩ ::
    .token (.nag nag) s :: t.lexemesAt s.stop

/-- A glyph directly behind a move is read exactly if it is split off. -/
theorem LetteredMove.readsGlyph_iff (h : LetteredMove move) (hmem : (symbol, nag) ∈ Nag.symbols)
    (hheld : t.holdsAt 0 (move ++ symbol) = true) (hsize : (move ++ symbol).length ≤ t.size)
    (hbehind : t[(move ++ symbol).length]?.all endsGlyph = true) :
    t.ReadsGlyph move nag ⟨move.length, move.length + symbol.length⟩ ↔ SplitsOff move symbol := by
  have hends : t.WordEnds (0 + (move ++ symbol).length) := by
    rw [Nat.zero_add]
    exact wordEnds_of_endsGlyph hsize hbehind
  obtain ⟨hsplit, hwhole⟩ := h.moveAt_of_symbol hmem hheld hends
  rw [Nat.zero_add] at hsplit hwhole
  rw [holdsAt_append, Bool.and_eq_true, Nat.zero_add] at hheld
  rw [ReadsGlyph, h.lexemesAt hheld.1]
  constructor
  · intro hread
    refine Decidable.by_contra fun hnot => hwhole hnot ?_
    have hspan := (Lexeme.token.inj (List.cons.inj hread).1).2
    exact (Span.mk.inj hspan).2
  · intro hsplits
    rw [List.length_append] at hbehind
    rw [hsplit hsplits, lexemesAt_of_symbol hmem hheld.2 hbehind]

/-- A glyph behind a blank is read in any case. -/
theorem LetteredMove.readsGlyph_of_space (h : LetteredMove move)
    (hmem : (symbol, nag) ∈ Nag.symbols)
    (hheld : t.holdsAt 0 (move ++ [Byte.space] ++ symbol) = true)
    (hbehind : t[(move ++ [Byte.space] ++ symbol).length]?.all endsGlyph = true) :
    t.ReadsGlyph move nag ⟨move.length + 1, move.length + 1 + symbol.length⟩ := by
  rw [holdsAt_append, holdsAt_append, Bool.and_eq_true, Bool.and_eq_true, Nat.zero_add,
    Nat.zero_add, List.length_append, List.length_singleton] at hheld
  rw [List.length_append, List.length_append, List.length_singleton] at hbehind
  have hspace : t[move.length]? = some Byte.space := holdsAt_iff.1 hheld.1.2 0 _ rfl
  have hmove := h.moveAt hheld.1.1 (.inr ⟨_, by rwa [Nat.zero_add], rfl⟩)
  rw [Nat.zero_add] at hmove
  rw [ReadsGlyph, h.lexemesAt hheld.1.1, hmove, lexemesAt_of_isBlank hspace rfl,
    lexemesAt_of_symbol hmem hheld.2 hbehind]

/-- A text is what stands at its beginning, and behind that the rest. -/
theorem holdsAt_ofBytes_append (bytes rest : List UInt8) :
    (ofBytes (bytes ++ rest).toByteArray).holdsAt 0 bytes = true ∧
      (ofBytes (bytes ++ rest).toByteArray)[bytes.length]? = rest.head? := by
  have hheld := holdsAt_ofBytes (bytes ++ rest)
  rw [holdsAt_append, Bool.and_eq_true] at hheld
  refine ⟨hheld.1, ?_⟩
  rw [getElem?_ofBytes, List.getElem?_append_right (Nat.le_refl _), Nat.sub_self,
    List.head?_eq_getElem?]

/-- A symbol directly behind a move is read as its glyph, as it is behind a blank, exactly if the
move does not go on into it. What follows is the end of the text, a blank, the end of a variation or
a comment. -/
theorem glyph_behind_move (h : LetteredMove move) (hmem : (symbol, nag) ∈ Nag.symbols)
    (hrest : rest.head?.all endsGlyph = true) :
    ((ofBytes (move ++ symbol ++ rest).toByteArray).ReadsGlyph move nag
          ⟨move.length, move.length + symbol.length⟩ ↔ SplitsOff move symbol) ∧
      (ofBytes (move ++ [Byte.space] ++ symbol ++ rest).toByteArray).ReadsGlyph move nag
        ⟨move.length + 1, move.length + 1 + symbol.length⟩ := by
  constructor
  · obtain ⟨hheld, hbehind⟩ := holdsAt_ofBytes_append (move ++ symbol) rest
    refine h.readsGlyph_iff hmem hheld ?_ (by rw [hbehind]; exact hrest)
    rw [size_ofBytes, List.size_toByteArray]
    exact (List.prefix_append ..).length_le
  · obtain ⟨hheld, hbehind⟩ := holdsAt_ofBytes_append (move ++ [Byte.space] ++ symbol) rest
    exact h.readsGlyph_of_space hmem hheld (by rw [hbehind]; exact hrest)

/-- In `Nf3+- *` and in `Nf3 +- *` the move `Nf3` is read and the glyph `$18`. -/
theorem glyph_behind_move_of_knight :
    LetteredMove [0x4e, 0x66, 0x33] ∧
      (ofBytes [0x4e, 0x66, 0x33, 0x2b, 0x2d, 0x20, 0x2a].toByteArray).ReadsGlyph
        [0x4e, 0x66, 0x33] ⟨18⟩ ⟨3, 5⟩ ∧
      (ofBytes [0x4e, 0x66, 0x33, 0x20, 0x2b, 0x2d, 0x20, 0x2a].toByteArray).ReadsGlyph
        [0x4e, 0x66, 0x33] ⟨18⟩ ⟨4, 6⟩ := by
  have hmove : LetteredMove [0x4e, 0x66, 0x33] := by decide
  have hglyph : ([0x2b, 0x2d], ⟨18⟩) ∈ Nag.symbols := by decide
  have hread := @glyph_behind_move _ _ [Byte.space, Byte.star] _ hmove hglyph rfl
  exact ⟨hmove, hread.1.2 (by decide), hread.2⟩

/-- In `e8=Q± *` there is no glyph `$16` behind a move `e8=Q`, and in `e4+= *` no glyph `$14` behind
a move `e4`. -/
theorem glyph_taken_for_move :
    LetteredMove [0x65, 0x38, 0x3d, 0x51] ∧ ([0xc2, 0xb1], ⟨16⟩) ∈ Nag.symbols ∧
      ¬(ofBytes [0x65, 0x38, 0x3d, 0x51, 0xc2, 0xb1, 0x20, 0x2a].toByteArray).ReadsGlyph
        [0x65, 0x38, 0x3d, 0x51] ⟨16⟩ ⟨4, 6⟩ ∧
      LetteredMove [0x65, 0x34] ∧ ([0x2b, 0x3d], ⟨14⟩) ∈ Nag.symbols ∧
      ¬(ofBytes [0x65, 0x34, 0x2b, 0x3d, 0x20, 0x2a].toByteArray).ReadsGlyph
        [0x65, 0x34] ⟨14⟩ ⟨2, 4⟩ := by
  have hpromotion : LetteredMove [0x65, 0x38, 0x3d, 0x51] := by decide
  have hpawn : LetteredMove [0x65, 0x34] := by decide
  have hbetter : ([0xc2, 0xb1], ⟨16⟩) ∈ Nag.symbols := by decide
  have hslightly : ([0x2b, 0x3d], ⟨14⟩) ∈ Nag.symbols := by decide
  refine ⟨hpromotion, hbetter, ?_, hpawn, hslightly, ?_⟩
  · exact mt (hpromotion.readsGlyph_iff hbetter (by decide) (by decide +kernel)
      (by decide)).1 (by decide)
  · exact mt (hpawn.readsGlyph_iff hslightly (by decide) (by decide +kernel)
      (by decide)).1 (by decide)

end Text

end Scorebook
