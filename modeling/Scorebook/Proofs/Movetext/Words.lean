import Scorebook.Proofs.Movetext.Strides

/-!
# Words between gaps

What a token is, is decided by its own bytes. The scanners look a little further, for a symbol that
goes on or for dots behind a number, but no symbol holds a byte that starts a gap and no gap starts
with a dot. So a word that stands in front of a gap, or of the end of the text, is read alike
wherever it stands (`Text.tokenAt_of_standsAt`), and movetext written as words with gaps between
them has the tokens of the words, whatever is in the gaps (`Text.Separated.tokens`).
-/

namespace Scorebook

namespace Text

variable {t u : Text} {pos pos' i k n : Nat} {word : List UInt8} {first : UInt8}

/-! ## Words that stand by themselves -/

/-- The bytes a gap may start with behind a word. An escaped line only starts a line, and no word
ends one. -/
def startsGap (b : UInt8) : Bool :=
  Byte.isBlank b || b == Byte.openBrace || b == Byte.semicolon

/-- What starts a gap ends a stretch of movetext. -/
theorem endsStretch_of_startsGap {b : UInt8} (h : startsGap b = true) : endsStretch b = true := by
  simp only [startsGap, Bool.or_eq_true] at h
  rcases h with (h | h) | h <;> simp [endsStretch, h]

/-- What starts a gap ends a word. -/
theorem endsWord_of_startsGap {b : UInt8} (h : startsGap b = true) : endsWord b = true :=
  endsWord_of_endsStretch (endsStretch_of_startsGap h)

/-- The word stands at `pos`, and a gap or the end of the text follows it. -/
structure StandsAt (t : Text) (pos : Nat) (word : List UInt8) : Prop where
  held : t.holdsAt pos word = true
  ends : t[pos + word.length]?.all startsGap = true

namespace StandsAt

variable (h : t.StandsAt pos word)

include h

/-- A word that stands in a text ends in it. -/
theorem le_size (hne : word ≠ []) : pos + word.length ≤ t.size := by
  have hlast : word.length - 1 < word.length := by
    have := List.length_pos_iff.2 hne
    omega
  have hb := holdsAt_iff.1 h.held _ _ (List.getElem?_eq_getElem hlast)
  have := lt_size_of_getElem? hb
  omega

/-- Its bytes are those of the text. -/
theorem getElem? (hi : i < word.length) : t[pos + i]? = word[i]? := by
  rw [List.getElem?_eq_getElem hi]
  exact holdsAt_iff.1 h.held i _ (List.getElem?_eq_getElem hi)

/-- A search for bytes that start gaps among others ends in the word or right behind it. -/
theorem seek {p : UInt8 → Bool} (hp : ∀ b, startsGap b = true → p b = true) (hne : word ≠ [])
    (hi : i ≤ word.length) : t.seek p (pos + i) = pos + (i + (word.drop i).findIdx p) := by
  have hsize := h.le_size hne
  -- By induction on what is left of the word, behind which `p` stops at the next gap.
  induction hleft : word.length - i generalizing i with
  | zero =>
    obtain rfl : i = word.length := by omega
    rw [List.drop_length, List.findIdx_nil, Nat.add_zero]
    rcases Nat.eq_or_lt_of_le hsize with heq | hlt
    · rw [heq]
      exact seek_of_size_le (Nat.le_refl _)
    · obtain ⟨b, hb⟩ := exists_getElem? hlt
      have hends := h.ends
      rw [hb] at hends
      exact seek_of_match hb (hp b hends)
  | succ left ih =>
    have hlt : i < word.length := by omega
    have hb : t[pos + i]? = some word[i] := by
      rw [h.getElem? hlt, List.getElem?_eq_getElem hlt]
    rw [List.drop_eq_getElem_cons hlt, List.findIdx_cons]
    cases hmatch : p word[i] with
    | true => exact seek_of_match hb hmatch
    | false =>
      rw [seek_of_not_match hb hmatch, Nat.add_assoc, ih hlt (by omega)]
      rw [cond_false, Nat.succ_eq_add_one]
      omega

/-- Where a part of a word ends is told by the word alone. -/
theorem seek_endsWord (hne : word ≠ []) (hi : i ≤ word.length) :
    t.seek endsWord (pos + i) = pos + (i + (word.drop i).findIdx endsWord) :=
  h.seek (fun _ => endsWord_of_startsGap) hne hi

/-- The first bytes of the word are those of the text. -/
theorem word_take (hk : k ≤ word.length) : t.word ⟨pos, pos + k⟩ = word.take k := by
  apply List.ext_getElem?
  intro i
  rw [getElem?_word, List.getElem?_take]
  by_cases hi : i < k
  · rw [if_pos (by simp only; omega), if_pos hi]
    exact h.getElem? (by omega)
  · rw [if_neg (by simp only; omega), if_neg hi]

/-- They are decoded alike. -/
theorem read_take (hk : k ≤ word.length) :
    t.read ⟨pos, pos + k⟩ = decode (word.take k).toByteArray := by
  rw [read, slice_eq_word, h.word_take hk]

end StandsAt

/-! ## Tokens in two places -/

/-- The same token is read at `pos` and at `pos'`, of the same length. -/
def SameToken (pos pos' : Nat) (read read' : Token × Nat) : Prop :=
  ∃ token length, read = (token, pos + length) ∧ read' = (token, pos' + length)

/-- The same token of the same length is the same in both places. -/
theorem sameToken (token : Token) (length : Nat) :
    SameToken pos pos' (token, pos + length) (token, pos' + length) :=
  ⟨token, length, rfl, rfl⟩

section

variable (h : t.StandsAt pos word) (h' : u.StandsAt pos' word)

include h h'

/-- A word is read as the same move wherever it stands. -/
theorem moveAt_of_standsAt (hne : word ≠ []) :
    SameToken pos pos' (t.moveAt pos) (u.moveAt pos') := by
  have hlength : word.findIdx endsWord ≤ word.length := List.findIdx_le_length
  have hseek : t.seek endsWord pos = pos + word.findIdx endsWord := by
    simpa using h.seek_endsWord hne (Nat.zero_le _)
  have hseek' : u.seek endsWord pos' = pos' + word.findIdx endsWord := by
    simpa using h'.seek_endsWord hne (Nat.zero_le _)
  simp only [moveAt, hseek, hseek', h.word_take hlength, h'.word_take hlength, h.read_take hlength,
    h'.read_take hlength]
  split
  · exact sameToken _ _
  · -- What is cut off and what is left lie within the word, which is the same in both texts.
    cases hsymbol : trailingSymbol? (word.take (word.findIdx endsWord)) with
    | none => exact sameToken _ _
    | some n =>
      have hn := List.find?_some hsymbol
      simp only [Bool.and_eq_true, decide_eq_true_eq, List.length_take] at hn
      have hle : n ≤ word.findIdx endsWord := by omega
      simp only [Nat.add_sub_assoc hle, h.read_take (Nat.le_trans (Nat.sub_le ..) hlength),
        h'.read_take (Nat.le_trans (Nat.sub_le ..) hlength)]
      exact sameToken _ _

/-- It is read as the same numeral. -/
theorem numeralAt_of_standsAt (hne : word ≠ []) :
    SameToken pos pos' (t.numeralAt pos) (u.numeralAt pos') := by
  have hlength : word.findIdx endsWord ≤ word.length := List.findIdx_le_length
  have hseek : t.seek endsWord pos = pos + word.findIdx endsWord := by
    simpa using h.seek_endsWord hne (Nat.zero_le _)
  have hseek' : u.seek endsWord pos' = pos' + word.findIdx endsWord := by
    simpa using h'.seek_endsWord hne (Nat.zero_le _)
  have hdot : ∀ b, startsGap b = true → (b != Byte.dot) = true :=
    Byte.forall_of_table (p := fun b => startsGap b = true → (b != Byte.dot) = true)
      (by decide +kernel)
  simp only [numeralAt, hseek, hseek', h.word_take hlength, h'.word_take hlength,
    h.seek hdot hne hlength, h'.seek hdot hne hlength]
  split
  · exact sameToken _ _
  split
  · exact moveAt_of_standsAt h h' hne
  split
  · exact sameToken _ _
  split
  · exact sameToken _ _
  · exact sameToken _ _

end

/-- No symbol reaches past the end of a stretch. -/
theorem symbolAt?_append {behind : List UInt8} (h : behind.head?.all endsStretch = true) :
    Nag.symbolAt? (word ++ behind) = Nag.symbolAt? word := by
  unfold Nag.symbolAt?
  congr 1
  -- A symbol holds no byte that could stand behind the word.
  funext n
  by_cases hn : n ≤ word.length
  · rw [if_pos hn, if_pos (by rw [List.length_append]; omega), List.take_append_of_le_length hn]
  · rw [if_neg hn]
    split
    · next hle =>
      cases behind with
      | nil => exact absurd (by simpa using hle) hn
      | cons b behind =>
        rw [Option.map_eq_none_iff, List.lookup_eq_none_iff]
        intro s hs
        rw [bne_iff_ne]
        intro heq
        have hmem : b ∈ (word ++ b :: behind).take n := by
          obtain ⟨m, hm⟩ : ∃ m, n - word.length = m + 1 := ⟨n - word.length - 1, by omega⟩
          rw [List.take_append, hm, List.take_succ_cons]
          simp
        have hnone := not_endsStretch_of_symbol s hs b (heq ▸ hmem)
        rw [show endsStretch b = true from h] at hnone
        cases hnone
    · rfl

/-- Some bytes from where a word stands are the word and what is behind it. -/
theorem word_eq_append (hheld : t.holdsAt pos word = true) (hle : word.length ≤ n) :
    t.word ⟨pos, pos + n⟩ = word ++ t.word ⟨pos + word.length, pos + n⟩ := by
  apply List.ext_getElem?
  intro i
  rw [List.getElem?_append]
  split
  · next hi =>
    rw [getElem?_word, if_pos (by simp only; omega), List.getElem?_eq_getElem hi]
    exact holdsAt_iff.1 hheld i _ (List.getElem?_eq_getElem hi)
  · next hi =>
    rw [getElem?_word, getElem?_word]
    simp only [show pos + word.length + (i - word.length) = pos + i by omega]

theorem head?_word (t : Text) (s : Span) :
    (t.word s).head? = if s.start < s.stop then t[s.start]? else none := by
  rw [List.head?_eq_getElem?, getElem?_word]
  simp only [Nat.add_zero]

/-- It is found to be the same symbol. -/
theorem StandsAt.symbolAt? (h : t.StandsAt pos word) :
    Nag.symbolAt? (t.word ⟨pos, pos + n⟩) = Nag.symbolAt? (word.take n) := by
  rcases Nat.le_total n word.length with hle | hge
  · rw [h.word_take hle]
  · rw [word_eq_append h.held hge, List.take_of_length_le hge]
    refine symbolAt?_append ?_
    rw [head?_word]
    split
    · rw [Option.all_eq_true]
      exact fun b hb => endsStretch_of_startsGap ((Option.all_eq_true ..).1 h.ends b hb)
    · rfl

section

variable (h : t.StandsAt pos word) (h' : u.StandsAt pos' word)

include h h'

/-- It is read as the same symbol. -/
theorem symbolAt_of_standsAt (hne : word ≠ []) (first : UInt8) :
    SameToken pos pos' (t.symbolAt pos first) (u.symbolAt pos' first) := by
  have hone : 1 ≤ word.length := List.length_pos_iff.2 hne
  have hlength : 1 + (word.drop 1).findIdx endsWord ≤ word.length := by
    have : (word.drop 1).findIdx endsWord ≤ (word.drop 1).length := List.findIdx_le_length
    rw [List.length_drop] at this
    omega
  simp only [symbolAt, h.symbolAt?, h'.symbolAt?, h.seek_endsWord hne hone,
    h'.seek_endsWord hne hone, h.word_take hlength, h'.word_take hlength, h.read_take hlength,
    h'.read_take hlength]
  cases Nag.symbolAt? (word.take symbolReach) with
  | some found => exact sameToken _ _
  | none =>
    simp only
    split
    · exact sameToken _ _
    split
    · exact sameToken _ _
    · exact sameToken _ _

/-- It is read as the same glyph. -/
theorem nagAt_of_standsAt (hne : word ≠ []) :
    SameToken pos pos' (t.nagAt pos) (u.nagAt pos') := by
  have hone : 1 ≤ word.length := List.length_pos_iff.2 hne
  have hlength : 1 + (word.drop 1).findIdx endsWord ≤ word.length := by
    have : (word.drop 1).findIdx endsWord ≤ (word.drop 1).length := List.findIdx_le_length
    rw [List.length_drop] at this
    omega
  simp only [nagAt, h.seek_endsWord hne hone, h'.seek_endsWord hne hone, h.word_take hlength,
    h'.word_take hlength]
  cases Nag.ofBytes? (word.take (1 + (word.drop 1).findIdx endsWord)) with
  | some nag => exact sameToken _ _
  | none => exact sameToken _ _

/-- A word is read alike wherever it stands by itself. -/
theorem tokenAt_of_standsAt (hne : word ≠ []) (first : UInt8) :
    SameToken pos pos' (t.tokenAt pos first) (u.tokenAt pos' first) := by
  unfold tokenAt
  split
  · exact sameToken _ _
  split
  · exact sameToken _ _
  split
  · exact sameToken _ _
  split
  · exact nagAt_of_standsAt h h' hne
  split
  · exact numeralAt_of_standsAt h h' hne
  split
  · exact moveAt_of_standsAt h h' hne
  · exact symbolAt_of_standsAt h h' hne first

end

/-! ## Words that are one token -/

/-- The token that a word starts with where a space follows it, and its length. -/
def readWord (word : List UInt8) : Token × Nat :=
  (ofBytes (word ++ [Byte.space]).toByteArray).tokenAt 0 (word.headD Byte.space)

/-- The word is one token where a space follows it. -/
structure ReadsWhole (word : List UInt8) : Prop where
  ne_nil : word ≠ []
  length_eq : (readWord word).2 = word.length

theorem standsAt_space (word : List UInt8) :
    (ofBytes (word ++ [Byte.space]).toByteArray).StandsAt 0 word where
  held := by
    have hheld := holdsAt_ofBytes (word ++ [Byte.space])
    rw [holdsAt_append, Bool.and_eq_true] at hheld
    exact hheld.1
  ends := by
    rw [getElem?_ofBytes, Nat.zero_add, List.getElem?_append_right (Nat.le_refl _), Nat.sub_self]
    rfl

/-- A word that is one token before a space is the same token before any gap. -/
theorem StandsAt.tokenAt (h : t.StandsAt pos word) (hwhole : ReadsWhole word) :
    ∃ first, t[pos]? = some first ∧
      t.tokenAt pos first = ((readWord word).1, pos + word.length) := by
  obtain ⟨first, rest, rfl⟩ := List.exists_cons_of_ne_nil hwhole.ne_nil
  have hlength := hwhole.length_eq
  obtain ⟨token, length, hread, hread'⟩ :=
    tokenAt_of_standsAt h (standsAt_space (first :: rest)) hwhole.ne_nil first
  have hword : readWord (first :: rest) = (token, 0 + length) := hread'
  rw [hword, Nat.zero_add] at hlength
  refine ⟨first, h.getElem? (Nat.succ_pos _), ?_⟩
  rw [hread, hword, ← hlength]

/-- A word that is one token has no blanks behind its first byte. -/
theorem ReadsWhole.not_isBlank {b : UInt8} (h : ReadsWhole word) (hi : 0 < i)
    (hb : word[i]? = some b) : Byte.isBlank b = false := by
  obtain ⟨first, rest, rfl⟩ := List.exists_cons_of_ne_nil h.ne_nil
  have hstands := standsAt_space (first :: rest)
  have hfirst := hstands.getElem? (Nat.succ_pos rest.length)
  have hlt := (List.getElem?_eq_some_iff.1 hb).1
  have hle : (readWord (first :: rest)).2 ≤ _ := tokenAt_le hfirst
  rw [h.length_eq] at hle
  have hends := not_of_lt_seek (i := i) (by omega) (Nat.lt_of_lt_of_le hlt hle)
    (by simpa using (hstands.getElem? hlt).trans hb)
  simp only [endsStretch, Bool.or_eq_false_iff] at hends
  exact hends.1.1.1.1.1

/-- Where such a word ends the text ends, or a gap starts with a byte that ends all words. -/
theorem ReadsWhole.standsAt (h : ReadsWhole word) (hheld : t.holdsAt pos word = true)
    (hstart : t.inGap pos = false)
    (hend : pos + word.length = t.size ∨ t.inGap (pos + word.length) = true) :
    t.StandsAt pos word where
  held := hheld
  ends := by
    rcases hend with hsize | hgap
    · rw [getElem?_eq_none_iff.2 (Nat.le_of_eq hsize.symm)]
      rfl
    · -- The gap behind the word is a comment or a blank: a line cannot begin there.
      obtain ⟨b, hb, -⟩ := (Option.any_eq_true ..).1 hgap
      obtain ⟨m, hm⟩ : ∃ m, word.length = m + 1 :=
        Nat.exists_eq_succ_of_ne_zero (mt List.length_eq_zero_iff.1 h.ne_nil)
      have hlast := List.getElem?_eq_getElem (show m < word.length by omega)
      have hc := holdsAt_iff.1 hheld m _ hlast
      have hblank : Byte.isBlank word[m] = false := by
        rcases Nat.eq_zero_or_pos m with rfl | hpos
        · rw [Nat.add_zero] at hc
          rw [inGap_of_getElem? hc] at hstart
          simp only [Bool.or_eq_false_iff] at hstart
          exact hstart.1.1.1
        · exact h.not_isBlank hpos hlast
      have hline : t.atLineStart (pos + word.length) = false :=
        hm ▸ not_atLineStart hc hblank
      rw [inGap_of_getElem? hb, hline, Bool.and_false, Bool.or_false] at hgap
      rw [hb]
      simpa [startsGap, Bool.or_right_comm] using hgap

end Text

end Scorebook
