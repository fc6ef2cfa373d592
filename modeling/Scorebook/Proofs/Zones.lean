import Scorebook.Proofs.Scanning

/-!
# Comments and escaped lines, byte by byte

Whether a byte lies in a comment or in an escaped line depends on what stands in front of it. A
`Zone` is all there is to remember of that, and `Text.zone` reads a text one byte at a time with
nothing but a zone in mind. It knows neither gaps nor tokens, so it serves as the measure of the
scanners that do: a gap consists of blanks and of bytes that lie aside, and behind a gap nothing is
left open.
-/

namespace Scorebook

/-- What the bytes in front of a place leave open. -/
inductive Zone
  /-- Nothing: tokens may stand here. -/
  | plain
  /-- A comment that ends with its line. -/
  | lineComment
  /-- A comment that ends with the next closing brace. -/
  | braceComment
  /-- A line that is escaped as a whole. -/
  | escapedLine
deriving DecidableEq, Repr

/-- The zone behind a byte; `first` says whether the byte is the first of its line. -/
def Zone.behind (zone : Zone) (first : Bool) (b : UInt8) : Zone :=
  match zone with
  | plain =>
    if b == Byte.percent && first then escapedLine
    else if b == Byte.semicolon then lineComment
    else if b == Byte.openBrace then braceComment
    else plain
  | lineComment => if b == Byte.newline then plain else lineComment
  | braceComment => if b == Byte.closeBrace then plain else braceComment
  | escapedLine => if b == Byte.newline then plain else escapedLine

/-- Behind a byte that opens nothing the text is as plain as before. -/
theorem Zone.behind_plain {first : Bool} {b : UInt8}
    (hpercent : (b == Byte.percent && first) = false) (hsemicolon : b ≠ Byte.semicolon)
    (hbrace : b ≠ Byte.openBrace) :
    plain.behind first b = plain := by
  simp [behind, hpercent, hsemicolon, hbrace]

/-- A blank opens nothing. -/
theorem Zone.behind_plain_of_isBlank {b : UInt8} (h : Byte.isBlank b = true) (first : Bool) :
    plain.behind first b = plain := by
  have hne {c : UInt8} (hc : Byte.isBlank c = false) : b ≠ c := by
    rintro rfl
    rw [h] at hc
    cases hc
  exact behind_plain (by simp [hne (c := Byte.percent) rfl]) (hne rfl) (hne rfl)

namespace Text

/-- The zone at `pos` for someone who starts reading at `start`, where nothing is open. -/
def zone (t : Text) (start : Nat) : Nat → Zone
  | 0 => .plain
  | pos + 1 =>
    if pos < start then .plain
    else
      match t[pos]? with
      | none => t.zone start pos
      | some b => (t.zone start pos).behind (t.atLineStart pos) b

/-- The byte at `pos` is part of a comment or of an escaped line, its marks included. -/
def IsAside (t : Text) (start pos : Nat) : Prop :=
  t.zone start pos ≠ .plain ∨ t.zone start (pos + 1) ≠ .plain

/-- The byte at `pos` is part of no token and of no tag. -/
def IsSpare (t : Text) (start pos : Nat) : Prop :=
  t[pos]?.any Byte.isBlank = true ∨ t.IsAside start pos

instance (t : Text) (start pos : Nat) : Decidable (t.IsAside start pos) :=
  inferInstanceAs (Decidable (_ ∨ _))

instance (t : Text) (start pos : Nat) : Decidable (t.IsSpare start pos) :=
  inferInstanceAs (Decidable (_ ∨ _))

variable {t : Text} {start mid pos i q : Nat} {b : UInt8} {z : Zone}

/-! ## Reading on -/

/-- Nothing is opened in front of the start. -/
theorem zone_of_le (h : pos ≤ start) : t.zone start pos = .plain := by
  cases pos with
  | zero => rfl
  | succ pos => exact if_pos h

@[simp] theorem zone_self (t : Text) (pos : Nat) : t.zone pos pos = .plain :=
  zone_of_le (Nat.le_refl pos)

/-- Every byte leads from its zone to the next. -/
theorem zone_succ (hle : start ≤ pos) (hb : t[pos]? = some b) :
    t.zone start (pos + 1) = (t.zone start pos).behind (t.atLineStart pos) b := by
  rw [zone, if_neg (by omega), hb]

/-- Where nothing is open, one may as well start reading afresh. -/
theorem zone_eq_zone (hle : start ≤ mid) (hplain : t.zone start mid = .plain) (hpos : mid ≤ pos) :
    t.zone start pos = t.zone mid pos := by
  induction hpos with
  | refl => rw [hplain, zone_self]
  | @step pos hpos ih =>
    have hpos : mid ≤ pos := hpos
    rw [zone, zone, if_neg (by omega), if_neg (by omega), ih]

/-- Counting zones from a later offset makes no difference if that is plain. -/
theorem isSpare_iff_isSpare (hle : start ≤ mid) (hplain : t.zone start mid = .plain)
    (hpos : mid ≤ pos) : t.IsSpare start pos ↔ t.IsSpare mid pos := by
  rw [IsSpare, IsSpare, IsAside, IsAside, zone_eq_zone hle hplain hpos,
    zone_eq_zone hle hplain (Nat.le_succ_of_le hpos)]

/-- A zone lasts as long as no byte ends it. -/
theorem zone_lasts (hle : start ≤ mid) (hz : t.zone start mid = z) (hpos : mid ≤ pos)
    (hkeep : ∀ i c, mid ≤ i → i < pos → t[i]? = some c → z.behind (t.atLineStart i) c = z) :
    t.zone start pos = z := by
  induction hpos with
  | refl => exact hz
  | @step pos hpos ih =>
    have hpos : mid ≤ pos := hpos
    have hprev := ih fun i c hi hlt => hkeep i c hi (Nat.lt_succ_of_lt hlt)
    cases hc : t[pos]? with
    | none => rw [zone, if_neg (by omega), hc]; exact hprev
    | some c =>
      rw [zone_succ (by omega) hc, hprev]
      exact hkeep pos c hpos (Nat.lt_succ_self pos) hc

/-- Behind a blank the text is plain. -/
theorem zone_succ_of_isBlank (hb : t[pos]? = some b) (hblank : Byte.isBlank b = true) :
    t.zone pos (pos + 1) = .plain := by
  rw [zone_succ (Nat.le_refl pos) hb, zone_self]
  exact Zone.behind_plain_of_isBlank hblank _

/-! ## Comments and escaped lines as a whole

All three kinds are opened by one byte and closed by the first byte of another value.
-/

/-- The zone `z` is closed by `mark` and by nothing else. -/
structure ClosedBy (z : Zone) (mark : UInt8) : Prop where
  keeps : ∀ first c, (c == mark) = false → z.behind first c = z
  closes : ∀ first, z.behind first mark = .plain

/-- The rest of a line ends with the line. -/
theorem ClosedBy.lineComment : ClosedBy .lineComment Byte.newline :=
  ⟨fun _ _ h => by simp [Zone.behind, h], fun _ => rfl⟩

/-- An escaped line ends with the line. -/
theorem ClosedBy.escapedLine : ClosedBy .escapedLine Byte.newline :=
  ⟨fun _ _ h => by simp [Zone.behind, h], fun _ => rfl⟩

/-- A comment ends with its brace. -/
theorem ClosedBy.braceComment : ClosedBy .braceComment Byte.closeBrace :=
  ⟨fun _ _ h => by simp [Zone.behind, h], fun _ => rfl⟩

variable {mark : UInt8}

/-- From its opening byte to its closing one a comment stays open. -/
theorem ClosedBy.zone_eq (h : ClosedBy z mark) (hb : t[pos]? = some b)
    (hopen : Zone.plain.behind (t.atLineStart pos) b = z) (hi : pos < i)
    (hle : i ≤ t.seek (· == mark) pos) : t.zone pos i = z := by
  have hfirst : t.zone pos (pos + 1) = z := by
    rw [zone_succ (Nat.le_refl pos) hb, zone_self]
    exact hopen
  apply zone_lasts (Nat.le_succ pos) hfirst hi
  intro j c hj hlt hc
  exact h.keeps _ c (not_of_lt_seek (by omega) (by omega : j < t.seek (· == mark) pos) hc)

/-- Behind its closing byte nothing is left open. -/
theorem ClosedBy.zone_succ_eq (h : ClosedBy z mark) (hb : t[pos]? = some b) (hmark : b ≠ mark)
    (hopen : Zone.plain.behind (t.atLineStart pos) b = z)
    (hlt : t.seek (· == mark) pos < t.size) :
    t.zone pos (t.seek (· == mark) pos + 1) = .plain := by
  have hpos : pos < t.seek (· == mark) pos := lt_seek hb (by simpa using hmark)
  obtain ⟨c, hc, hcm⟩ := match_of_seek_lt hlt
  obtain rfl : c = mark := by simpa using hcm
  rw [zone_succ (Nat.le_of_lt hpos) hc, h.zone_eq hb hopen hpos (Nat.le_refl _)]
  exact h.closes _

/-- The bytes of a comment are spare, so it is enough to look at those behind it. -/
theorem ClosedBy.isSpare (h : ClosedBy z mark) (hz : z ≠ .plain) (hb : t[pos]? = some b)
    (hmark : b ≠ mark) (hopen : Zone.plain.behind (t.atLineStart pos) b = z) (hi : pos ≤ i)
    (hlt : i < t.size)
    (hrest : t.seek (· == mark) pos < i → t.IsSpare (t.seek (· == mark) pos + 1) i) :
    t.IsSpare pos i := by
  have hpos : pos < t.seek (· == mark) pos := lt_seek hb (by simpa using hmark)
  rcases Nat.lt_or_ge (t.seek (· == mark) pos) i with hpast | hle
  · have hplain := h.zone_succ_eq hb hmark hopen (Nat.lt_trans hpast hlt)
    exact (isSpare_iff_isSpare (by omega) hplain hpast).2 (hrest hpast)
  · right
    rcases Nat.eq_or_lt_of_le hi with rfl | hi
    · exact .inr (by rw [h.zone_eq hb hopen (Nat.lt_succ_self pos) hpos]; exact hz)
    · exact .inl (by rw [h.zone_eq hb hopen hi hle]; exact hz)

/-! ## Gaps are spare, and nothing is open behind them -/

/-- All bytes of a gap are blanks or in comments or escaped lines. -/
theorem isSpare_of_lt_gapFrom_stop {comments : Array Span} (hi : pos ≤ i)
    (hlt : i < (t.gapFrom pos comments).stop) : t.IsSpare pos i := by
  -- Along the recursion of the scanner, with each comment and escaped line as one stretch.
  fun_induction gapFrom t pos comments with
  | case1 | case8 => simp only at hlt; omega
  | case2 pos comments b hb hblank ih =>
    rcases Nat.eq_or_lt_of_le hi with rfl | hi
    · exact .inl (by simp [hb, hblank])
    · have hplain := zone_succ_of_isBlank hb hblank
      exact (isSpare_iff_isSpare (Nat.le_succ pos) hplain hi).2 (ih hi hlt)
  | case3 pos comments b hb hblank hescape eol heol ih =>
    simp only [Bool.and_eq_true, beq_iff_eq] at hescape
    obtain ⟨rfl, hfirst⟩ := hescape
    have hsize := Nat.lt_of_lt_of_le hlt (gapFrom_stop_le comments heol)
    exact ClosedBy.escapedLine.isSpare (by decide) hb (by decide) (by rw [hfirst]; rfl) hi hsize
      fun hpast => ih hpast hlt
  | case4 pos comments b hb hblank hescape eol heol =>
    simp only [Bool.and_eq_true, beq_iff_eq] at hescape
    obtain ⟨rfl, hfirst⟩ := hescape
    exact ClosedBy.escapedLine.isSpare (by decide) hb (by decide) (by rw [hfirst]; rfl) hi hlt
      fun hpast => absurd (Nat.lt_trans hpast hlt) heol
  | case5 pos comments eol hb hblank hescape ih =>
    have hsize := Nat.lt_of_lt_of_le hlt (gapFrom_stop_le _ (lineEnd_le_size t pos))
    apply ClosedBy.lineComment.isSpare (by decide) hb (by decide) rfl hi hsize
    intro hpast
    -- The line feed ends the comment and is a blank of its own in the rest of the gap.
    have hfeed : t[eol]? = some Byte.newline := getElem?_lineEnd (Nat.lt_trans hpast hsize)
    have hplain : t.zone eol (eol + 1) = .plain := zone_succ_of_isBlank hfeed rfl
    exact (isSpare_iff_isSpare (Nat.le_succ eol) hplain hpast).1 (ih (Nat.le_of_lt hpast) hlt)
  | case6 pos comments b hb hblank hescape hsemicolon hbrace close hclose ih =>
    obtain rfl : b = Byte.openBrace := beq_iff_eq.1 hbrace
    have hsize := Nat.lt_of_lt_of_le hlt (gapFrom_stop_le _ hclose)
    exact ClosedBy.braceComment.isSpare (by decide) hb (by decide) rfl hi hsize
      fun hpast => ih hpast hlt
  | case7 pos comments b hb hblank hescape hsemicolon hbrace close hclose =>
    obtain rfl : b = Byte.openBrace := beq_iff_eq.1 hbrace
    exact ClosedBy.braceComment.isSpare (by decide) hb (by decide) rfl hi hlt
      fun hpast => absurd (Nat.lt_trans hpast hlt) hclose

/-- A gap that ends in front of the end of the text leaves nothing open. -/
theorem zone_gapFrom_stop {comments : Array Span} (hlt : (t.gapFrom pos comments).stop < t.size) :
    t.zone pos (t.gapFrom pos comments).stop = .plain := by
  -- Every stretch ends in the plain, so the next one starts there afresh.
  fun_induction gapFrom t pos comments with
  | case1 | case8 => exact zone_self t _
  | case4 | case7 => exact absurd hlt (Nat.lt_irrefl _)
  | case2 pos comments b hb hblank ih =>
    rw [zone_eq_zone (Nat.le_succ pos) (zone_succ_of_isBlank hb hblank) (le_gapFrom_stop ..)]
    exact ih hlt
  | case3 pos comments b hb hblank hescape eol heol ih =>
    simp only [Bool.and_eq_true, beq_iff_eq] at hescape
    obtain ⟨rfl, hfirst⟩ := hescape
    have hpos : pos ≤ eol := le_lineEnd (Nat.le_of_lt (lt_size_of_getElem? hb))
    have hplain : t.zone pos (eol + 1) = .plain :=
      ClosedBy.escapedLine.zone_succ_eq hb (by decide) (by rw [hfirst]; rfl) heol
    rw [zone_eq_zone (by omega) hplain (le_gapFrom_stop ..)]
    exact ih hlt
  | case5 pos comments eol hb hblank hescape ih =>
    have hpos : pos < eol := lt_lineEnd hb (by decide)
    have heol : eol < t.size := Nat.lt_of_le_of_lt (le_gapFrom_stop ..) hlt
    have hfeed : t[eol]? = some Byte.newline := getElem?_lineEnd heol
    have hplain : t.zone pos (eol + 1) = .plain :=
      ClosedBy.lineComment.zone_succ_eq hb (by decide) rfl heol
    have hpast := le_gapFrom_stop t (eol + 1) (comments.push ⟨pos + 1, eol⟩)
    rw [← gapFrom_of_isBlank hfeed rfl] at hpast
    rw [zone_eq_zone (by omega) hplain hpast,
      ← zone_eq_zone (Nat.le_succ eol) (zone_succ_of_isBlank hfeed rfl) hpast]
    exact ih hlt
  | case6 pos comments b hb hblank hescape hsemicolon hbrace close hclose ih =>
    obtain rfl : b = Byte.openBrace := beq_iff_eq.1 hbrace
    have hpos : pos ≤ close := le_seek (Nat.le_of_lt (lt_size_of_getElem? hb))
    have hplain : t.zone pos (close + 1) = .plain :=
      ClosedBy.braceComment.zone_succ_eq hb (by decide) rfl hclose
    rw [zone_eq_zone (by omega) hplain (le_gapFrom_stop ..)]
    exact ih hlt

theorem isSpare_of_lt_gap_stop (hi : pos ≤ i) (hlt : i < (t.gap pos).stop) : t.IsSpare pos i :=
  isSpare_of_lt_gapFrom_stop hi hlt

theorem zone_gap_stop (hlt : (t.gap pos).stop < t.size) : t.zone pos (t.gap pos).stop = .plain :=
  zone_gapFrom_stop hlt

end Text

end Scorebook
