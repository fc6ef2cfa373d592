import Scorebook.Problem

/-!
# The gaps between tokens

Between any two tokens of a database there may be blanks, comments and escaped lines. A comment
runs from `;` to the end of its line or from `{` to the next `}` and does not nest; a line that
starts with `%` is escaped and skipped whole. `Text.gap` steps over all of it at once and remembers
where the comments were.

A brace that is never closed, and an escaped line that is never ended, reach to the end of the text
and are the only problems a gap can have. A `;` comment on the last line is no problem: it ends
where the text does.
-/

namespace Scorebook

/-- What lies between two tokens. -/
structure Gap where
  /-- Where the gap ends: the first byte that belongs to a token, or the end of the text. -/
  stop : Nat
  /-- The bodies of the comments, in order. -/
  comments : Array Span
  /-- The comment or escaped line that was never ended, if there is one. -/
  problem? : Option Problem
deriving Repr

namespace Text

/-- Steps over the gap from `pos` on; `comments` are the bodies passed so far. -/
def gapFrom (t : Text) (pos : Nat) (comments : Array Span) : Gap :=
  match h : t[pos]? with
  | none => ⟨pos, comments, none⟩
  | some b =>
    if Byte.isBlank b then t.gapFrom (pos + 1) comments
    else if b == Byte.percent && t.atLineStart pos then
      let eol := t.lineEnd pos
      if eol < t.size then t.gapFrom (eol + 1) comments
      else ⟨t.size, comments, some (.fault .unclosedEscape ⟨pos, t.size⟩)⟩
    else if hb : b = Byte.semicolon then
      let eol := t.lineEnd pos
      t.gapFrom eol (comments.push ⟨pos + 1, eol⟩)
    else if b == Byte.openBrace then
      let close := t.seek (· == Byte.closeBrace) pos
      if close < t.size then t.gapFrom (close + 1) (comments.push ⟨pos + 1, close⟩)
      else
        ⟨t.size, comments.push ⟨pos + 1, t.size⟩,
          some (.fault .unclosedComment ⟨pos, t.size⟩)⟩
    else ⟨pos, comments, none⟩
termination_by t.size - pos
decreasing_by
  all_goals have hlt := lt_size_of_getElem? h
  · omega
  · have : pos ≤ t.lineEnd pos := le_lineEnd (Nat.le_of_lt hlt)
    omega
  · have : pos < t.lineEnd pos := lt_lineEnd h (by subst hb; decide)
    omega
  · have : pos ≤ t.seek (· == Byte.closeBrace) pos := le_seek (Nat.le_of_lt hlt)
    omega

/-- The gap that starts at `pos`. -/
def gap (t : Text) (pos : Nat) : Gap :=
  t.gapFrom pos #[]

/-! ## Where a gap ends -/

/-- A gap never goes back. -/
theorem le_gapFrom_stop (t : Text) (pos : Nat) (comments : Array Span) :
    pos ≤ (t.gapFrom pos comments).stop := by
  fun_induction gapFrom t pos comments with
  | case1 => exact Nat.le_refl _
  | case2 _ _ _ _ _ ih => exact Nat.le_of_succ_le ih
  | case3 pos _ _ h _ _ eol _ ih =>
    have : pos ≤ eol := le_lineEnd (Nat.le_of_lt (lt_size_of_getElem? h))
    omega
  | case4 _ _ _ h => exact Nat.le_of_lt (lt_size_of_getElem? h)
  | case5 pos _ eol h _ _ ih =>
    have : pos ≤ eol := le_lineEnd (Nat.le_of_lt (lt_size_of_getElem? h))
    omega
  | case6 pos _ _ h _ _ _ _ close _ ih =>
    have : pos ≤ close := le_seek (Nat.le_of_lt (lt_size_of_getElem? h))
    omega
  | case7 _ _ _ h => exact Nat.le_of_lt (lt_size_of_getElem? h)
  | case8 => exact Nat.le_refl _

/-- A gap ends in the text. -/
theorem gapFrom_stop_le {t : Text} {pos : Nat} (comments : Array Span) (hpos : pos ≤ t.size) :
    (t.gapFrom pos comments).stop ≤ t.size := by
  fun_induction gapFrom t pos comments with
  | case1 => exact hpos
  | case2 _ _ _ h _ ih => exact ih (lt_size_of_getElem? h)
  | case3 _ _ _ _ _ _ _ hlt ih => exact ih hlt
  | case4 => exact Nat.le_refl _
  | case5 _ _ _ _ _ _ ih => exact ih (seek_le_size ..)
  | case6 _ _ _ _ _ _ _ _ _ hlt ih => exact ih hlt
  | case7 => exact Nat.le_refl _
  | case8 => exact hpos

theorem le_gap_stop (t : Text) (pos : Nat) : pos ≤ (t.gap pos).stop :=
  le_gapFrom_stop t pos #[]

theorem gap_stop_le {t : Text} {pos : Nat} (h : pos ≤ t.size) : (t.gap pos).stop ≤ t.size :=
  gapFrom_stop_le #[] h

end Text

end Scorebook
