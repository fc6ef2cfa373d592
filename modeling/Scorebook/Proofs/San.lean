import Scorebook.San

/-!
# What can follow a move

A move other than castling consists of squares, pieces and the like, and of a promotion or nothing
behind them. So a word that goes on behind a move with anything else is no move
(`San.isBareMove_append_eq_false`), unless the move is a promotion, behind which anything may stand
(`San.isBareMove_append`).
-/

namespace Scorebook.San

variable {word more : List Char} {p : Char → Bool}

/-! ## Plain characters and a promotion -/

/-- The characters a move other than castling consists of, up to its promotion. -/
def isPlain (c : Char) : Bool :=
  isFile c || isRank c || isPieceAnyCase c || c == 'x' || c == '@'

/-- A part that may be left out and is plain makes no difference to what stands behind all plain
characters. -/
theorem dropWhile_takeIf (hp : ∀ c, p c = true → isPlain c = true) (word : List Char) :
    (takeIf p word).2.dropWhile isPlain = word.dropWhile isPlain := by
  cases word with
  | nil => rfl
  | cons c rest =>
    rw [takeIf]
    split
    · next hc => rw [List.dropWhile_cons_of_pos (hp c hc)]
    · rfl

/-- A promotion has nothing plain in front. -/
theorem dropWhile_of_isPromotion (h : isPromotion word = true) : word.dropWhile isPlain = word := by
  unfold isPromotion at h
  split at h
  · rfl
  · exact List.dropWhile_cons_of_neg (by decide)
  · cases h

/-- Behind the plain characters of a target stands its promotion. -/
theorem isPromotion_of_isTarget (h : isTarget word = true) :
    isPromotion (word.dropWhile isPlain) = true := by
  unfold isTarget at h
  split at h
  · next file rank rest =>
    simp only [Bool.and_eq_true] at h
    rw [List.dropWhile_cons_of_pos (by simp [isPlain, h.1.1]),
      List.dropWhile_cons_of_pos (by simp [isPlain, h.1.2]), dropWhile_of_isPromotion h.2]
    exact h.2
  · cases h

/-- Behind the plain characters of a journey stands its promotion. -/
theorem isPromotion_of_isJourney (h : isJourney word = true) :
    isPromotion (word.dropWhile isPlain) = true := by
  -- Files and ranks are plain, so taking one away changes nothing.
  have hfile (c : Char) (hc : isFile c = true) : isPlain c = true := by simp [isPlain, hc]
  have hrank (c : Char) (hc : isRank c = true) : isPlain c = true := by simp [isPlain, hc]
  rw [← dropWhile_takeIf hfile, ← dropWhile_takeIf hrank]
  unfold isJourney at h
  simp only at h
  split at h
  · next hword =>
    rw [hword, List.dropWhile_cons_of_pos (by decide)]
    exact isPromotion_of_isTarget h
  · next hword =>
    rw [hword]
    rfl
  · next hword =>
    simp only [hword, Bool.and_eq_true] at h ⊢
    rw [dropWhile_of_isPromotion h.2]
    exact h.2
  · exact isPromotion_of_isTarget h

/-- The forms of null moves and castling. -/
def fixedForms : List (List Char) :=
  [['-', '-'], ['O', '-', 'O'], ['O', '-', 'O', '-', 'O']]

/-- A move consists of plain characters and a promotion, unless it has a form of its own. -/
theorem isPromotion_of_isBareMove (h : isBareMove word = true) (hform : word ∉ fixedForms) :
    isPromotion (word.dropWhile isPlain) = true := by
  have hpiece (c : Char) (hc : isPiece c = true) : isPlain c = true := by
    simp only [isPiece, Bool.or_eq_true, beq_iff_eq] at hc
    rcases hc with ((((rfl | rfl) | rfl) | rfl) | rfl) | rfl <;> decide
  -- By the forms of a move, of which the first three are set apart.
  unfold isBareMove at h
  split at h
  · exact absurd (by decide) hform
  · exact absurd (by decide) hform
  · exact absurd (by decide) hform
  · simp only [Bool.and_eq_true] at h
    simp [List.dropWhile, isPlain, h, isPromotion]
  · simp only [Bool.and_eq_true] at h
    simp [List.dropWhile, isPlain, h, isPromotion]
  · rw [← dropWhile_takeIf hpiece]
    exact isPromotion_of_isJourney h

/-- No move without a promotion goes on with characters that are neither plain nor the start of
one. -/
theorem isBareMove_append_eq_false (hequals : '=' ∉ word)
    (hmore : isPromotion (more.dropWhile isPlain) = false) (hform : word ++ more ∉ fixedForms) :
    isBareMove (word ++ more) = false := by
  rw [Bool.eq_false_iff]
  intro hmove
  have hpromotion := isPromotion_of_isBareMove hmove hform
  rw [List.dropWhile_append] at hpromotion
  split at hpromotion
  · rw [hmore] at hpromotion
    cases hpromotion
  · -- The move stops being plain in front of `more`, and not at an equals sign.
    cases hrest : word.dropWhile isPlain with
    | nil => simp_all
    | cons c rest =>
      have hc : c ∈ word := (List.dropWhile_suffix isPlain).subset (hrest ▸ List.mem_cons_self)
      rw [hrest] at hpromotion
      unfold isPromotion at hpromotion
      split at hpromotion
      · next heq => cases heq
      · next heq => exact hequals ((List.cons.inj heq).1 ▸ hc)
      · cases hpromotion

/-! ## Promotions -/

/-- Whether the first character is taken does not depend on what is appended. -/
theorem takeIf_append (hne : word ≠ []) (p : Char → Bool) (more : List Char) :
    takeIf p (word ++ more) = ((takeIf p word).1, (takeIf p word).2 ++ more) := by
  cases word with
  | nil => exact absurd rfl hne
  | cons c rest =>
    rw [List.cons_append, takeIf, takeIf]
    split <;> rfl

/-- Taking a character leaves all of another kind. -/
theorem mem_takeIf {c : Char} (hc : c ∈ word) (hp : p c = false) : c ∈ (takeIf p word).2 := by
  cases word with
  | nil => cases hc
  | cons first rest =>
    rw [takeIf]
    split
    · next hfirst =>
      rcases List.mem_cons.1 hc with rfl | hrest
      · rw [hp] at hfirst
        cases hfirst
      · exact hrest
    · exact hc

/-- What starts with a promotion goes on as one. -/
theorem isPromotion_append (h : isPromotion word = true) (hne : word ≠ []) (more : List Char) :
    isPromotion (word ++ more) = true := by
  unfold isPromotion at h
  split at h
  · exact absurd rfl hne
  · exact h
  · cases h

/-- What is appended to a target behind an equals sign is taken for the rest of the promotion. -/
theorem isTarget_append (h : isTarget word = true) (hequals : '=' ∈ word) (more : List Char) :
    isTarget (word ++ more) = true := by
  unfold isTarget at h
  split at h
  · next file rank rest =>
    simp only [Bool.and_eq_true] at h
    have hne : rest ≠ [] := by
      rintro rfl
      rcases List.mem_cons.1 hequals with rfl | hrank
      · cases h.1.1
      · cases List.mem_singleton.1 hrank
        cases h.1.2
    simp only [List.cons_append, isTarget, h.1.1, h.1.2, isPromotion_append h.2 hne,
      Bool.and_self]
  · cases h

/-- What is appended to a journey behind an equals sign is taken for the rest of the promotion. -/
theorem isJourney_append (h : isJourney word = true) (hequals : '=' ∈ word) (more : List Char) :
    isJourney (word ++ more) = true := by
  -- The equals sign stands behind whatever letters are taken away.
  have hfile : '=' ∈ (takeIf isFile word).2 := mem_takeIf hequals rfl
  have hrank : '=' ∈ (takeIf isRank (takeIf isFile word).2).2 := mem_takeIf hfile rfl
  unfold isJourney at h ⊢
  simp only [takeIf_append (List.ne_nil_of_mem hequals),
    takeIf_append (List.ne_nil_of_mem hfile)] at h ⊢
  generalize (takeIf isRank (takeIf isFile word).2).2 = behind at *
  split at h
  · next rest =>
    refine isTarget_append h ?_ more
    rcases List.mem_cons.1 hrank with hx | hrest
    · cases hx
    · exact hrest
  · cases hrank
  · next rest _ =>
    rw [Bool.and_eq_true] at h
    show (_ && isPromotion _) = true
    rw [Bool.and_eq_true]
    exact ⟨h.1, isPromotion_append h.2 (List.cons_ne_nil _ _) more⟩
  · next hcapture hnil hpromotion =>
    obtain ⟨c, rest, rfl⟩ := List.exists_cons_of_ne_nil hnil
    have htarget := isTarget_append h hrank more
    rw [List.cons_append] at htarget ⊢
    split
    · next heq => exact absurd (congrArg (· :: rest) (List.cons.inj heq).1) (hcapture rest)
    · next heq => cases heq
    · next heq => exact absurd (congrArg (· :: rest) (List.cons.inj heq).1) (hpromotion rest)
    · exact htarget

/-! An at sign stands neither in a target nor behind one character of a journey. -/

/-- No square starts with an at sign. -/
theorem isTarget_atSign (rest : List Char) : isTarget ('@' :: rest) = false := by
  cases rest <;> rfl

/-- No journey starts with an at sign. -/
theorem isJourney_atSign_cons (rest : List Char) : isJourney ('@' :: rest) = false :=
  isTarget_atSign rest

/-- No journey has an at sign for its second character. -/
theorem isJourney_cons_atSign (c : Char) (rest : List Char) :
    isJourney (c :: '@' :: rest) = false := by
  unfold isJourney
  by_cases hfile : isFile c = true
  · rw [takeIf, if_pos hfile]
    exact isTarget_atSign rest
  by_cases hrank : isRank c = true
  · simp only [takeIf, if_neg hfile, if_pos hrank]
    exact isTarget_atSign rest
  simp only [takeIf, if_neg hfile, if_neg hrank]
  split
  · next heq =>
    rw [← (List.cons.inj heq).2]
    exact isTarget_atSign rest
  · rfl
  · rfl
  · have hat : isRank '@' = false := rfl
    simp [isTarget, hat]

/-- A word that can be read as a journey is a move. -/
theorem isBareMove_of_isJourney (h : isJourney (takeIf isPiece word).2 = true) :
    isBareMove word = true := by
  unfold isBareMove
  split
  · rfl
  · rfl
  · rfl
  · cases h
  · next piece file rank =>
    rw [takeIf] at h
    split at h
    · rw [isJourney_atSign_cons] at h
      cases h
    · rw [isJourney_cons_atSign] at h
      cases h
  · exact h

/-- A promotion stays a move, whatever follows it. -/
theorem isBareMove_append (h : isBareMove word = true) (hequals : '=' ∈ word) (more : List Char) :
    isBareMove (word ++ more) = true := by
  apply isBareMove_of_isJourney
  rw [takeIf_append (List.ne_nil_of_mem hequals)]
  refine isJourney_append ?_ (mem_takeIf hequals rfl) more
  unfold isBareMove at h
  -- The short forms have no equals sign.
  split at h
  · exact absurd hequals (by decide)
  · exact absurd hequals (by decide)
  · exact absurd hequals (by decide)
  · rw [Bool.and_eq_true] at h
    simp only [List.mem_cons, List.not_mem_nil, or_false] at hequals
    rcases hequals with heq | rfl | rfl
    · cases heq
    · cases h.1
    · cases h.2
  · rw [Bool.and_eq_true, Bool.and_eq_true] at h
    simp only [List.mem_cons, List.not_mem_nil, or_false] at hequals
    rcases hequals with rfl | heq | rfl | rfl
    · cases h.1.1
    · cases heq
    · cases h.1.2
    · cases h.2
  · exact h

/-! ## The sign of check -/

/-- Only the end of a word may be a check. -/
theorem dropCheck_append (hne : more ≠ []) (word : List Char) :
    dropCheck (word ++ more) = word ++ dropCheck more := by
  unfold dropCheck
  rw [List.getLast?_append, List.getLast?_eq_some_getLast hne, Option.some_or,
    List.dropLast_append_of_ne_nil hne]
  split <;> rfl

/-- A word that ends in no check stays as it is. -/
theorem dropCheck_of_getLast? (h : word.getLast? ≠ some '+' ∧ word.getLast? ≠ some '#') :
    dropCheck word = word := by
  unfold dropCheck
  split
  · next hplus => exact absurd hplus h.1
  · next hmate => exact absurd hmate h.2
  · rfl

/-- What is a move among the words that do not start like castling with zeros or a null move. -/
theorem isMove_of_head? {c : Char} (hhead : word.head? = some c) (hzero : c ≠ '0')
    (hminus : c ≠ '-') :
    isMove word = (word == ['Z', '0'] || isBareMove (dropCheck word)) := by
  cases word with
  | nil => cases hhead
  | cons first rest =>
    obtain rfl : first = c := Option.some.inj hhead
    have hcastling : startsWithZeroCastling (first :: rest) = false := by
      unfold startsWithZeroCastling
      split
      · next heq => exact absurd (List.cons.inj heq).1 hzero
      · rfl
    have hnull : (first :: rest == ['-', '-']) = false := by
      simp [hminus]
    rw [isMove, hcastling, hnull]
    rfl

end Scorebook.San
