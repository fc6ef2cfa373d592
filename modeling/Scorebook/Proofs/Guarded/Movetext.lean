import Scorebook.Proofs.Guarded.Scans
import Scorebook.Proofs.Problem.Ranges

/-!
# Reading movetext with every step guarded

Movetext is read in a text that is cut off behind it, word by word, and every word, comment and move
is cut out of it. The guarded functions fail where the text does not reach as far as the movetext is
said to, or a part of it would not lie inside. Movetext that lies in the text is read without that
(`Text.guardedScore_eq`).
-/

namespace Scorebook.Text

/-! ## Parts of a text -/

/-- As `upTo`, of a text that reaches as far. -/
def upTo? (t : Text) (n : Nat) : Option Text :=
  if n ≤ t.size then some (t.upTo n) else none

/-- As `word`. -/
def word? (t : Text) (s : Span) : Option (List UInt8) := do
  let bytes ← t.slice? s
  some bytes.data.toList

/-- As `read`. -/
def read? (t : Text) (s : Span) : Option String := do
  let bytes ← t.slice? s
  some (decode bytes)

/-- As `readTrimmed`. The blanks are taken off what was cut out. -/
def readTrimmed? (t : Text) (s : Span) : Option String := do
  let _ ← t.slice? s
  some (t.readTrimmed s)

/-! ## Tokens -/

/-- As `moveAt`. -/
def guardedMoveAt (t : Text) (pos : Nat) : Option (Token × Nat) := do
  let stop ← t.guardedFind endsWord t.size pos
  let word ← t.word? ⟨pos, stop⟩
  if isMove word then
    let text ← t.read? ⟨pos, stop⟩
    some (.san text true, stop)
  else
    match trailingSymbol? word with
    | some n =>
      let text ← t.read? ⟨pos, stop - n⟩
      some (.san text true, stop - n)
    | none =>
      let text ← t.read? ⟨pos, stop⟩
      some (.san text false, stop)

/-- As `numeralAt`. -/
def guardedNumeralAt (t : Text) (pos : Nat) : Option (Token × Nat) := do
  let stop ← t.guardedFind endsWord t.size pos
  let word ← t.word? ⟨pos, stop⟩
  match Outcome.ofText? (latin1 word) with
  | some outcome => some (.marker outcome, stop)
  | none =>
    if San.startsWithZeroCastling (latin1 word) then t.guardedMoveAt pos
    else if word.all Byte.isDigit then
      let token :=
        match Decimal.parse? numberBound word with
        | some n => .number n
        | none => .unexpected
      let behind ← t.guardedFind (· != Byte.dot) t.size stop
      some (token, behind)
    else if word.all fun b => Byte.isDigit b || b == Byte.minus || b == Byte.slash then
      some (.badMarker, stop)
    else some (.unexpected, stop)

/-- As `symbolAt`. -/
def guardedSymbolAt (t : Text) (pos : Nat) (first : UInt8) : Option (Token × Nat) := do
  let _ ← t.slice? ⟨pos, t.size⟩
  match Nag.symbolAt? (t.word ⟨pos, pos + symbolReach⟩) with
  | some (nag, length) => some (.nag nag, pos + length)
  | none =>
    let stop ← t.guardedFind endsWord t.size (pos + 1)
    let word ← t.word? ⟨pos, stop⟩
    if word = [Byte.minus, Byte.minus] then
      let text ← t.read? ⟨pos, stop⟩
      some (.san text true, stop)
    else if startsSymbol first then some (.badNag, stop)
    else some (.unexpected, stop)

/-- As `nagAt`. -/
def guardedNagAt (t : Text) (pos : Nat) : Option (Token × Nat) := do
  let stop ← t.guardedFind endsWord t.size (pos + 1)
  let word ← t.word? ⟨pos, stop⟩
  match Nag.ofBytes? word with
  | some nag => some (.nag nag, stop)
  | none => some (.badNag, stop)

/-- As `tokenAt`. -/
def guardedTokenAt (t : Text) (pos : Nat) (first : UInt8) : Option (Token × Nat) :=
  if first = Byte.openParen then some (.opening, pos + 1)
  else if first = Byte.closeParen then some (.closing, pos + 1)
  else if first = Byte.star then some (.marker .undefined, pos + 1)
  else if first = Byte.dollar then t.guardedNagAt pos
  else if Byte.isDigit first then t.guardedNumeralAt pos
  else if Byte.isLetter first || first == Byte.atSign then t.guardedMoveAt pos
  else t.guardedSymbolAt pos first

/-! ## Lexemes and scores -/

/-- As `gapLexemes`. -/
def guardedGapLexemes (t : Text) (gap : Gap) : Option (Array Lexeme) := do
  let texts ← gap.comments.toList.mapM t.readTrimmed?
  let comments := gap.comments.toList.zipWith Lexeme.comment texts
  some (comments.toArray ++ gap.problem?.toArray.map .openEnd)

/-- As `lexemesFrom`. -/
def guardedLexemesFrom (t : Text) (pos : Nat) (lexemes : Array Lexeme) :
    Option (Array Lexeme) := do
  let gap ← t.guardedGap pos
  let found ← t.guardedGapLexemes gap
  let lexemes := lexemes ++ found
  if t.size ≤ gap.stop then some lexemes
  else
    let first ← t[gap.stop]?
    let read ← t.guardedTokenAt gap.stop first
    if pos < read.2 ∧ read.2 ≤ t.size then
      t.guardedLexemesFrom read.2 (lexemes.push (.token read.1 ⟨gap.stop, read.2⟩))
    else none
termination_by t.size - pos

/-- As `lexemes`. -/
def guardedLexemes (t : Text) (s : Span) : Option (List Lexeme) := do
  let seen ← t.upTo? s.stop
  let lexemes ← seen.guardedLexemesFrom s.start #[]
  some lexemes.toList

/-- As `score`. What stands behind the termination marker is read as well, but not looked into. -/
def guardedScore (t : Text) (strict : Bool) (s : Span) : Option Score := do
  let lexemes ← t.guardedLexemes s
  some ((Reader.start s.start).run strict s.stop lexemes)

/-! ## No guard fails -/

variable {t : Text} {pos : Nat}

/-- A span that the text covers can be sliced out. -/
theorem slice?_of_covers {s : Span} (h : t.Covers s) : t.slice? s = some (t.slice s) :=
  if_pos h

/-- Its bytes can be read one by one. -/
theorem word?_eq {s : Span} (h : t.Covers s) : t.word? s = some (t.word s) := by
  rw [word?, slice?_of_covers h]
  rfl

/-- It can be decoded. -/
theorem read?_eq {s : Span} (h : t.Covers s) : t.read? s = some (t.read s) := by
  rw [read?, slice?_of_covers h]
  rfl

/-- It can be decoded without the blanks around it. -/
theorem readTrimmed?_eq {s : Span} (h : t.Covers s) :
    t.readTrimmed? s = some (t.readTrimmed s) := by
  rw [readTrimmed?, slice?_of_covers h]
  rfl

/-- A search in all of the text. -/
theorem guardedFind_size (t : Text) (p : UInt8 → Bool) (pos : Nat) :
    t.guardedFind p t.size pos = some (t.seek p pos) := by
  rw [guardedFind_eq p (Nat.le_refl _), upTo_self]

/-- A move is read from within the text. -/
theorem guardedMoveAt_eq (hpos : pos ≤ t.size) : t.guardedMoveAt pos = some (t.moveAt pos) := by
  have hword : t.Covers ⟨pos, t.seek endsWord pos⟩ := ⟨le_seek hpos, seek_le_size ..⟩
  rw [guardedMoveAt, guardedFind_size, moveAt]
  simp only [Option.bind_eq_bind, Option.bind_some, word?_eq hword, read?_eq hword]
  split
  · rfl
  · cases hn : trailingSymbol? (t.word ⟨pos, t.seek endsWord pos⟩) with
    | none => rfl
    | some n =>
      have hlen := List.find?_some hn
      simp only [Bool.and_eq_true, decide_eq_true_eq, length_word] at hlen
      have hmove : t.Covers ⟨pos, t.seek endsWord pos - n⟩ :=
        ⟨show pos ≤ t.seek endsWord pos - n by omega, Nat.le_trans (Nat.sub_le ..) hword.2⟩
      simp only
      rw [read?_eq hmove]
      rfl

/-- A numeral is read from within the text. -/
theorem guardedNumeralAt_eq (hpos : pos ≤ t.size) :
    t.guardedNumeralAt pos = some (t.numeralAt pos) := by
  have hword : t.Covers ⟨pos, t.seek endsWord pos⟩ := ⟨le_seek hpos, seek_le_size ..⟩
  rw [guardedNumeralAt, numeralAt]
  simp only [guardedFind_size, Option.bind_eq_bind, Option.bind_some, word?_eq hword,
    guardedMoveAt_eq hpos]
  cases Outcome.ofText? (latin1 (t.word ⟨pos, t.seek endsWord pos⟩)) with
  | some outcome => rfl
  | none =>
    simp only
    split
    · rfl
    · split
      · rfl
      · split <;> rfl

/-- A word whose first byte is passed over. -/
theorem covers_word (hlt : pos < t.size) : t.Covers ⟨pos, t.seek endsWord (pos + 1)⟩ :=
  ⟨Nat.le_of_succ_le (le_seek hlt), seek_le_size ..⟩

/-- A symbol is read from within the text. -/
theorem guardedSymbolAt_eq (first : UInt8) (hlt : pos < t.size) :
    t.guardedSymbolAt pos first = some (t.symbolAt pos first) := by
  have hword := covers_word hlt
  rw [guardedSymbolAt, symbolAt]
  simp only [slice?_eq (Nat.le_of_lt hlt) (Nat.le_refl _), guardedFind_size, Option.bind_eq_bind,
    Option.bind_some, word?_eq hword, read?_eq hword]
  cases Nag.symbolAt? (t.word ⟨pos, pos + symbolReach⟩) with
  | some found => rfl
  | none => simp only [apply_ite some]

/-- A glyph is read from within the text. -/
theorem guardedNagAt_eq (hlt : pos < t.size) : t.guardedNagAt pos = some (t.nagAt pos) := by
  rw [guardedNagAt, nagAt]
  simp only [guardedFind_size, Option.bind_eq_bind, Option.bind_some, word?_eq (covers_word hlt)]
  cases Nag.ofBytes? (t.word ⟨pos, t.seek endsWord (pos + 1)⟩) <;> rfl

/-- A token is read from within the text, whichever it is. -/
theorem guardedTokenAt_eq (first : UInt8) (hlt : pos < t.size) :
    t.guardedTokenAt pos first = some (t.tokenAt pos first) := by
  unfold guardedTokenAt tokenAt
  simp only [guardedNagAt_eq hlt, guardedNumeralAt_eq (Nat.le_of_lt hlt),
    guardedMoveAt_eq (Nat.le_of_lt hlt), guardedSymbolAt_eq first hlt, apply_ite some]

/-- What no element of a list fails for does not fail for the list. -/
theorem mapM_eq_some {α β : Type} {f : α → Option β} {g : α → β} {l : List α}
    (h : ∀ a ∈ l, f a = some (g a)) : l.mapM f = some (l.map g) := by
  induction l with
  | nil => rfl
  | cons a l ih =>
    obtain ⟨ha, hl⟩ := List.forall_mem_cons.1 h
    rw [List.mapM_cons, ha, ih hl]
    rfl

/-- The comments of a gap lie in the text. -/
theorem guardedGapLexemes_eq (t : Text) (pos : Nat) :
    t.guardedGapLexemes (t.gap pos) = some (t.gapLexemes (t.gap pos)) := by
  have htexts : (t.gap pos).comments.toList.mapM t.readTrimmed? =
      some ((t.gap pos).comments.toList.map t.readTrimmed) :=
    mapM_eq_some fun body hbody =>
      readTrimmed?_eq (covers_of_mem_comments (Array.mem_toList_iff.1 hbody))
  rw [guardedGapLexemes, htexts, gapLexemes, Option.bind_eq_bind, Option.bind_some,
    List.zipWith_map_right, List.zipWith_self, ← Array.toList_map]

/-- All lexemes are read from within the text. -/
theorem guardedLexemesFrom_eq (t : Text) (pos : Nat) (lexemes : Array Lexeme) :
    t.guardedLexemesFrom pos lexemes = some (t.lexemesFrom pos lexemes) := by
  fun_induction lexemesFrom t pos lexemes with
  | case1 pos lexemes gap found hnone =>
    rw [guardedLexemesFrom, guardedGap_eq]
    simp only [Option.bind_eq_bind, Option.bind_some, guardedGapLexemes_eq]
    rw [if_pos (getElem?_eq_none_iff.1 hnone)]
  | case2 pos lexemes gap found first hfirst read ih =>
    have hlt : gap.stop < t.size := lt_size_of_getElem? hfirst
    have hgap : pos ≤ gap.stop := le_gap_stop t pos
    have hread : gap.stop < read.2 := lt_tokenAt hfirst
    rw [guardedLexemesFrom, guardedGap_eq]
    simp only [Option.bind_eq_bind, Option.bind_some, guardedGapLexemes_eq]
    rw [if_neg (Nat.not_le.2 hlt), hfirst, Option.bind_some, guardedTokenAt_eq first hlt,
      Option.bind_some, if_pos ⟨Nat.lt_of_le_of_lt hgap hread, tokenAt_stop_le hfirst⟩]
    exact ih

/-- Movetext in the text is read without a check failing. -/
theorem guardedLexemes_eq {s : Span} (hs : s.stop ≤ t.size) :
    t.guardedLexemes s = some (t.lexemes s) := by
  have hview : t.upTo? s.stop = some (t.upTo s.stop) := if_pos hs
  rw [guardedLexemes, hview]
  simp only [Option.bind_eq_bind, Option.bind_some, guardedLexemesFrom_eq]
  rfl

/-- Movetext that ends in the text is read without leaving the text. -/
theorem guardedScore_eq {s : Span} (strict : Bool) (hs : s.stop ≤ t.size) :
    t.guardedScore strict s = some (t.score strict s) := by
  rw [guardedScore, guardedLexemes_eq hs]
  rfl

end Scorebook.Text
