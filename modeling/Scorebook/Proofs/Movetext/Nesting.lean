import Scorebook.Proofs.Movetext.Arena

/-!
# Where the lines and moves of a score lie

The tables of a score place its lines and moves in the text. Moves lie one behind the other, each in
the span of its line. A variation fills the text between its parentheses, and two lines lie one
inside the other or apart (`Arena.Nested`).

For this it only matters where lines and moves lie and which line they belong to: the `Layout` of
the tables. While the tables are filled, a line that is still open has a start and no end, and all
that is known is what lies in front of the place reached so far (`Layout.Nesting`).
-/

namespace Scorebook

/-! ## Layouts -/

/-- Where a line lies. -/
structure LinePlace where
  span : Span
  parent : Option Nat
  depth : Nat

/-- Where a move lies. -/
structure MovePlace where
  span : Span
  parent : Nat

/-- Where the lines and moves of two tables lie. -/
structure Layout where
  line? : Nat → Option LinePlace
  move? : Nat → Option MovePlace

def LineNode.place (x : LineNode) : LinePlace :=
  ⟨x.span, x.parent, x.depth⟩

def MoveNode.place (y : MoveNode) : MovePlace :=
  ⟨y.span, y.parent⟩

namespace Layout

/-- The lines and moves read so far, all in front of `pos`, lie nested in the span `s` as far as
they have ended. The lines in `opened` are still open. -/
structure Nesting (t : Text) (s : Span) (opened : List Nat) (pos : Nat) (l : Layout) : Prop where
  main : ∃ x, l.line? 0 = some x ∧ x.span = s
  line_start : ∀ v x, l.line? v = some x → x.span.start ≤ pos
  lines_increase : ∀ v w x y, v < w → l.line? v = some x → l.line? w = some y →
    x.span.start < y.span.start
  opening : ∀ v x, 0 < v → l.line? v = some x →
    0 < x.span.start ∧ t[x.span.start - 1]? = some Byte.openParen
  closed : ∀ v x, l.line? v = some x → v ∉ opened →
    x.span.start ≤ x.span.stop ∧ t[x.span.stop]? = some Byte.closeParen ∧ x.span.stop < pos
  apart_or_inside : ∀ v w x y, v < w → l.line? v = some x → l.line? w = some y → v ∉ opened →
    x.span.stop < y.span.start ∨ w ∉ opened ∧ y.span.stop < x.span.stop
  move_extent : ∀ m x, l.move? m = some x → x.span.start < x.span.stop ∧ x.span.stop ≤ pos
  moves_apart : ∀ m n x y, m < n → l.move? m = some x → l.move? n = some y →
    x.span.stop ≤ y.span.start
  moves_inside : ∀ m x y, l.move? m = some x → l.line? x.parent = some y →
    y.span.start ≤ x.span.start ∧ (x.parent ∉ opened → x.span.stop ≤ y.span.stop)
  enclosed : ∀ v x, 0 < v → l.line? v = some x →
    ∃ w y, l.line? w = some y ∧ w < v ∧ x.depth = oneMore y.depth ∧
      (∀ m, x.parent = some m → ∃ z, l.move? m = some z ∧ z.parent = w) ∧
      (∀ u z, w < u → u < v → l.line? u = some z →
        u ∉ opened ∧ z.span.stop + 1 < x.span.start) ∧
      (w ∈ opened ∨ v ∉ opened ∧ x.span.stop < y.span.stop)

/-- Adds a move. -/
def withMove (l : Layout) (m : Nat) (x : MovePlace) : Layout :=
  { l with move? := fun n => if n = m then some x else l.move? n }

/-- Adds a line. -/
def withLine (l : Layout) (v : Nat) (x : LinePlace) : Layout :=
  { l with line? := fun w => if w = v then some x else l.line? w }

/-- Ends a line at `stop`. -/
def close (l : Layout) (v stop : Nat) : Layout :=
  { l with
    line? := fun w =>
      if w = v then (l.line? w).map fun x => { x with span := ⟨x.span.start, stop⟩ }
      else l.line? w }

namespace Nesting

variable {t : Text} {s : Span} {opened : List Nat} {pos : Nat} {l : Layout}

/-- Reading on changes nothing. -/
theorem mono (h : l.Nesting t s opened pos) {pos' : Nat} (hpos : pos ≤ pos') :
    l.Nesting t s opened pos' where
  main := h.main
  line_start v x hx := Nat.le_trans (h.line_start v x hx) hpos
  lines_increase := h.lines_increase
  opening := h.opening
  closed v x hx hv := by
    obtain ⟨hle, hparen, hlt⟩ := h.closed v x hx hv
    exact ⟨hle, hparen, Nat.lt_of_lt_of_le hlt hpos⟩
  apart_or_inside := h.apart_or_inside
  move_extent m x hx := ⟨(h.move_extent m x hx).1, Nat.le_trans (h.move_extent m x hx).2 hpos⟩
  moves_apart := h.moves_apart
  moves_inside := h.moves_inside
  enclosed := h.enclosed

/-- A move that is put behind all others into an open line leaves the layout nested. -/
theorem withMove (h : l.Nesting t s opened pos) {m : Nat} {x : MovePlace}
    (hfresh : ∀ n y, l.move? n = some y → n < m) (hopen : x.parent ∈ opened)
    (hpos : pos ≤ x.span.start) (hspan : x.span.start < x.span.stop) :
    (l.withMove m x).Nesting t s opened x.span.stop := by
  have hmono := h.mono (Nat.le_trans hpos (Nat.le_of_lt hspan))
  -- The cases are the new move and those before it; of the fields, only those on moves change.
  have hmove (n : Nat) (y : MovePlace) (hy : (l.withMove m x).move? n = some y) :
      n = m ∧ y = x ∨ l.move? n = some y := by
    simp only [Layout.withMove] at hy
    split at hy
    · exact .inl ⟨‹_›, (Option.some.inj hy).symm⟩
    · exact .inr hy
  constructor
  case main => exact hmono.main
  case line_start => exact hmono.line_start
  case lines_increase => exact hmono.lines_increase
  case opening => exact hmono.opening
  case closed => exact hmono.closed
  case apart_or_inside => exact hmono.apart_or_inside
  case move_extent =>
    intro n y hy
    obtain ⟨-, rfl⟩ | hy := hmove n y hy
    · exact ⟨hspan, Nat.le_refl _⟩
    · exact hmono.move_extent n y hy
  -- The new move starts behind all others, which end at `pos` at the latest.
  case moves_apart =>
    intro n k y z hlt hy hz
    have := h.moves_apart n k y z hlt
    have := h.move_extent n y
    grind
  -- Its line is open, so it has no end yet.
  case moves_inside =>
    intro n y z hy hz
    change l.line? y.parent = some z at hz
    have := h.moves_inside n y z
    have := h.line_start y.parent z hz
    grind
  case enclosed =>
    intro v y hv hy
    obtain ⟨w, z, hz, hlt, hdepth, hparent, hrest⟩ := h.enclosed v y hv hy
    refine ⟨w, z, hz, hlt, hdepth, ?_, hrest⟩
    intro n hn
    obtain ⟨k, hk, hkw⟩ := hparent n hn
    exact ⟨k, (if_neg (Nat.ne_of_lt (hfresh n k hk))).trans hk, hkw⟩

/-- A line that is opened in the innermost open line leaves the layout nested. -/
theorem withLine (h : l.Nesting t s opened pos) {v w : Nat} {x y : LinePlace}
    (hfresh : ∀ u z, l.line? u = some z → u < v)
    (hpos : pos < x.span.start) (hparen : t[x.span.start - 1]? = some Byte.openParen)
    (hw : w ∈ opened) (hlast : ∀ u ∈ opened, u ≤ w) (hy : l.line? w = some y)
    (hdepth : x.depth = oneMore y.depth)
    (hparent : ∀ m, x.parent = some m → ∃ z, l.move? m = some z ∧ z.parent = w)
    (howned : ∀ m z, l.move? m = some z → z.parent ≠ v) (hne : v ≠ 0) :
    (l.withLine v x).Nesting t s (v :: opened) x.span.start := by
  -- The new line comes last, and the entries of the others stay.
  have hline (u : Nat) (z : LinePlace) (hz : (l.withLine v x).line? u = some z) :
      u = v ∧ z = x ∨ u < v ∧ l.line? u = some z := by
    simp only [Layout.withLine] at hz
    split at hz
    · exact .inl ⟨‹_›, (Option.some.inj hz).symm⟩
    · exact .inr ⟨hfresh u z hz, hz⟩
  have hold {u : Nat} (hu : u < v) : (l.withLine v x).line? u = l.line? u :=
    if_neg (Nat.ne_of_lt hu)
  constructor
  case main =>
    obtain ⟨z, hz, hspan⟩ := h.main
    exact ⟨z, (hold (hfresh 0 z hz)).trans hz, hspan⟩
  case line_start =>
    intro u z hz
    have := h.line_start u z
    grind
  case lines_increase =>
    intro u k z z' hlt hz hz'
    have := h.lines_increase u k z z' hlt
    have := h.line_start u z
    grind
  case opening =>
    intro u z hu hz
    obtain ⟨rfl, rfl⟩ | ⟨-, hz⟩ := hline u z hz
    · exact ⟨Nat.zero_lt_of_lt hpos, hparen⟩
    · exact h.opening u z hu hz
  case closed =>
    intro u z hz hu
    have := h.closed u z
    grind
  -- The new line starts behind whatever is closed by now.
  case apart_or_inside =>
    intro u k z z' hlt hz hz' hu
    have := h.apart_or_inside u k z z' hlt
    have := h.closed u z
    grind
  case move_extent =>
    intro m z hz
    have := h.move_extent m z hz
    omega
  case moves_apart => exact h.moves_apart
  case moves_inside =>
    intro m z z' hz hz'
    have := h.moves_inside m z z' hz
    have := howned m z hz
    grind
  -- The new line lies in the innermost one that is open. Those opened in between are closed.
  case enclosed =>
    intro u z hu hz
    obtain ⟨rfl, rfl⟩ | ⟨hlt, hz⟩ := hline u z hz
    · refine ⟨w, y, (hold (hfresh w y hy)).trans hy, hfresh w y hy, hdepth, hparent, ?_, ?_⟩
      · intro k z' hwk hk hz'
        rw [hold hk] at hz'
        have := h.closed k z' hz'
        have := hlast k
        grind
      · exact .inl (List.mem_cons_of_mem _ hw)
    · obtain ⟨k, z', hz', hk, hdepth', hparent', hbetween, hend⟩ := h.enclosed u z hu hz
      refine ⟨k, z', (hold (hfresh k z' hz')).trans hz', hk, hdepth', hparent', ?_, ?_⟩
      · intro j q hkj hju hq
        rw [hold (Nat.lt_trans hju hlt)] at hq
        have := hbetween j q hkj hju hq
        grind
      · grind

/-! ### Closing a line -/

section Close

variable {v c u : Nat} {outer : List Nat} {z : LinePlace}

/-- A line of the layout in which `v` was closed is one of the layout before. Only the end of `v` is
another. -/
theorem exists_line?_of_close (hz : (l.close v c).line? u = some z) :
    ∃ z', l.line? u = some z' ∧ z.span.start = z'.span.start ∧ z.parent = z'.parent ∧
      z.depth = z'.depth ∧ z.span.stop = if u = v then c else z'.span.stop := by
  simp only [Layout.close] at hz
  split at hz
  · next hu =>
    obtain ⟨z', hz', rfl⟩ := Option.map_eq_some_iff.1 hz
    exact ⟨z', hz', rfl, rfl, rfl, (if_pos hu).symm⟩
  · next hu => exact ⟨z, hz, rfl, rfl, rfl, (if_neg hu).symm⟩

/-- Closing a line gives it its end and changes nothing else. -/
theorem exists_line?_close (v c : Nat) (hz : l.line? u = some z) :
    ∃ z', (l.close v c).line? u = some z' ∧ z'.depth = z.depth ∧
      z'.span.stop = if u = v then c else z.span.stop := by
  simp only [Layout.close]
  split
  · exact ⟨{ z with span := ⟨z.span.start, c⟩ }, by rw [hz]; rfl, rfl, rfl⟩
  · exact ⟨z, hz, rfl, rfl⟩

/-- A line that is not open any more is the one that was closed or had been closed before. -/
theorem eq_or_not_mem (hu : u ∉ outer) : u = v ∨ u ∉ v :: outer := by
  rw [List.mem_cons]
  grind

/-- The line that ends was opened last, so every later line has ended. -/
theorem not_mem_of_lt (hlast : ∀ u ∈ outer, u < v) (hu : v < u) : u ∉ v :: outer := by
  rw [List.mem_cons]
  grind

variable (h : l.Nesting t s (v :: outer) pos) (hlast : ∀ u ∈ outer, u < v) (hpos : pos ≤ c)

include h

include hpos in
/-- After closing, a line that is not open ends at its closing parenthesis. -/
theorem closed_close (hparen : t[c]? = some Byte.closeParen)
    (hz : (l.close v c).line? u = some z) (hu : u ∉ outer) :
    z.span.start ≤ z.span.stop ∧ t[z.span.stop]? = some Byte.closeParen ∧ z.span.stop < c + 1 := by
  obtain ⟨z', hz', hstart, -, -, hstop⟩ := exists_line?_of_close hz
  rw [hstart, hstop]
  split
  · have := h.line_start u z' hz'
    exact ⟨by omega, hparen, Nat.lt_succ_self c⟩
  · next hne =>
    obtain ⟨hle, hbyte, hlt⟩ := h.closed u z' hz' ((eq_or_not_mem hu).resolve_left hne)
    exact ⟨hle, hbyte, by omega⟩

include hlast hpos in
/-- After closing, a later line is behind a closed one or inside it. -/
theorem apart_or_inside_close {k : Nat} {q : LinePlace} (hlt : u < k)
    (hz : (l.close v c).line? u = some z) (hq : (l.close v c).line? k = some q) (hu : u ∉ outer) :
    z.span.stop < q.span.start ∨ k ∉ outer ∧ q.span.stop < z.span.stop := by
  obtain ⟨z', hz', hstart, -, -, hstop⟩ := exists_line?_of_close hz
  obtain ⟨q', hq', hstart', -, -, hstop'⟩ := exists_line?_of_close hq
  have hk := h.closed k q' hq'
  have happart := h.apart_or_inside u k z' q' hlt hz' hq'
  obtain rfl | hu := eq_or_not_mem (v := v) hu
  · have := not_mem_of_lt hlast hlt
    grind
  · grind

include hpos in
/-- After closing, the moves of a closed line end in it. -/
theorem moves_inside_close {m : Nat} {x : MovePlace} (hx : l.move? m = some x)
    (hz : (l.close v c).line? x.parent = some z) :
    z.span.start ≤ x.span.start ∧ (x.parent ∉ outer → x.span.stop ≤ z.span.stop) := by
  obtain ⟨z', hz', hstart, -, -, hstop⟩ := exists_line?_of_close hz
  have hinside := h.moves_inside m x z' hx hz'
  have hextent := h.move_extent m x hx
  refine ⟨hstart ▸ hinside.1, ?_⟩
  intro hparent
  rw [hstop]
  split
  · omega
  · next hne => exact hinside.2 ((eq_or_not_mem hparent).resolve_left hne)

include hlast hpos in
/-- After closing, each line still lies in the one that was open where it starts. -/
theorem enclosed_close (hu : 0 < u) (hz : (l.close v c).line? u = some z) :
    ∃ w y, (l.close v c).line? w = some y ∧ w < u ∧ z.depth = oneMore y.depth ∧
      (∀ m, z.parent = some m → ∃ x, l.move? m = some x ∧ x.parent = w) ∧
      (∀ k q, w < k → k < u → (l.close v c).line? k = some q →
        k ∉ outer ∧ q.span.stop + 1 < z.span.start) ∧
      (w ∈ outer ∨ u ∉ outer ∧ z.span.stop < y.span.stop) := by
  -- The line, the one around it, and those in between are as before, but for the end of one.
  obtain ⟨z', hz', hstart, hparent, hdepth, hstop⟩ := exists_line?_of_close hz
  obtain ⟨w, y, hy, hwu, hdepth', hbranch, hbetween, hend⟩ := h.enclosed u z' hu hz'
  obtain ⟨y', hy', hdepthy, hstopy⟩ := exists_line?_close v c hy
  have hdeeper : z.depth = oneMore y'.depth := by rw [hdepth, hdepth', hdepthy]
  refine ⟨w, y', hy', hwu, hdeeper, hparent ▸ hbranch, ?_, ?_⟩
  · intro k q hwk hku hq
    obtain ⟨q', hq', -, -, -, hstopq⟩ := exists_line?_of_close hq
    obtain ⟨hk, hlt⟩ := hbetween k q' hwk hku hq'
    obtain ⟨hne, hk⟩ := not_or.1 (mt List.mem_cons.2 hk)
    rw [hstopq, if_neg hne, hstart]
    exact ⟨hk, hlt⟩
  · -- Whichever line has ended, nothing but `v` has left the stack.
    rw [hstop, hstopy]
    -- If the line around `u` is the one that ends, `u` was opened later and has ended before.
    by_cases hw : w = v
    · right
      have hu' := not_mem_of_lt hlast (hw ▸ hwu)
      have hlt := (h.closed u z' hz' hu').2.2
      rw [if_pos hw, if_neg (by omega)]
      exact ⟨(not_or.1 (mt List.mem_cons.2 hu')).2, by omega⟩
    · rw [if_neg hw]
      obtain hwopen | ⟨hu', hlt⟩ := hend
      · exact .inl ((List.mem_cons.1 hwopen).resolve_left hw)
      · obtain ⟨hne, hu'⟩ := not_or.1 (mt List.mem_cons.2 hu')
        rw [if_neg hne]
        exact .inr ⟨hu', hlt⟩

include hlast hpos in
/-- At a closing parenthesis the line opened last ends, and all others stay as they are. -/
theorem close (hv : v ≠ 0) (hparen : t[c]? = some Byte.closeParen) :
    (l.close v c).Nesting t s outer (c + 1) where
  main := by
    obtain ⟨z, hz, hspan⟩ := h.main
    exact ⟨z, (if_neg (Ne.symm hv)).trans hz, hspan⟩
  line_start u z hz := by
    obtain ⟨z', hz', hstart, -⟩ := exists_line?_of_close hz
    have := h.line_start u z' hz'
    omega
  lines_increase u k z q hlt hz hq := by
    obtain ⟨z', hz', hstart, -⟩ := exists_line?_of_close hz
    obtain ⟨q', hq', hstart', -⟩ := exists_line?_of_close hq
    rw [hstart, hstart']
    exact h.lines_increase u k z' q' hlt hz' hq'
  opening u z hu hz := by
    obtain ⟨z', hz', hstart, -⟩ := exists_line?_of_close hz
    rw [hstart]
    exact h.opening u z' hu hz'
  closed _ _ hz hu := h.closed_close hpos hparen hz hu
  apart_or_inside _ _ _ _ hlt hz hq hu := h.apart_or_inside_close hlast hpos hlt hz hq hu
  move_extent m x hx := by
    have := h.move_extent m x hx
    omega
  moves_apart := h.moves_apart
  moves_inside _ _ _ hx hz := h.moves_inside_close hpos hx hz
  enclosed _ _ hu hz := h.enclosed_close hlast hpos hu hz

end Close

end Nesting

end Layout

/-! ## Nested tables -/

namespace Arena

/-- Line `w` is the innermost line around `place`: the last of those that start in front of it and
end behind it. -/
def Innermost (a : Arena) (place w : Nat) : Prop :=
  (∃ line, a.line? w = some line ∧ line.span.start ≤ place ∧ place < line.span.stop) ∧
    ∀ u line, w < u → a.line? u = some line →
      ¬ (line.span.start ≤ place ∧ place < line.span.stop)

/-- The lines and moves lie nested in the span `s`. -/
structure Nested (t : Text) (s : Span) (a : Arena) : Prop where
  main : ∃ line, a.line? 0 = some line ∧ line.span = s
  /-- Lines stand in the table in the order of their starts. -/
  lines_increase : ∀ {v w x y}, v < w → a.line? v = some x → a.line? w = some y →
    x.span.start < y.span.start
  /-- Moves stand in the table in the order of their starts. -/
  moves_increase : ∀ {m n x y}, m < n → a.move? m = some x → a.move? n = some y →
    x.span.start < y.span.start
  /-- A move is not empty, and it lies in its line. -/
  moves_inside : ∀ {v line} {i m : Nat} {x}, a.line? v = some line → line.moves[i]? = some m →
    a.move? m = some x → line.span.start ≤ x.span.start ∧ x.span.start < x.span.stop ∧
      x.span.stop ≤ line.span.stop
  /-- The moves of a line lie one behind the other. -/
  moves_apart : ∀ {v line} {i j m n : Nat} {x y}, a.line? v = some line → i < j →
    line.moves[i]? = some m → line.moves[j]? = some n → a.move? m = some x →
    a.move? n = some y → x.span.stop ≤ y.span.start
  /-- A variation lies between its parentheses. -/
  parentheses : ∀ {v line}, 0 < v → a.line? v = some line →
    0 < line.span.start ∧ line.span.start ≤ line.span.stop ∧
      t[line.span.start - 1]? = some Byte.openParen ∧
      t[line.span.stop]? = some Byte.closeParen
  /-- Of two lines the later one lies behind the earlier one, or in it. -/
  apart_or_inside : ∀ {v w x y}, v < w → a.line? v = some x → a.line? w = some y →
    x.span.stop < y.span.start ∨ x.span.start ≤ y.span.start ∧ y.span.stop ≤ x.span.stop
  /-- A variation lies, with its parentheses, in the line that was open where it starts. It is one
  deeper than that line, in 32 bits, and if it branches from a move, then from a move of that
  line. -/
  enclosed : ∀ {v line}, 0 < v → a.line? v = some line →
    ∃ w outer, a.Innermost (line.span.start - 1) w ∧ a.line? w = some outer ∧ w < v ∧
      outer.span.start < line.span.start ∧ line.span.stop < outer.span.stop ∧
      line.depth = oneMore outer.depth ∧
      ∀ m, line.parent = some m → ∃ node, a.move? m = some node ∧ node.parent = w

end Arena

/-! ## The layout of the tables -/

namespace Arena

/-- Where the lines and moves lie. -/
def layout (a : Arena) : Layout :=
  ⟨fun v => (a.line? v).map LineNode.place, fun m => (a.move? m).map MoveNode.place⟩

variable {a : Arena}

/-- The place of a line is in the layout. -/
theorem layout_line? {v : Nat} {x : LineNode} (h : a.line? v = some x) :
    a.layout.line? v = some x.place :=
  congrArg (Option.map LineNode.place) h

/-- So is the place of a move. -/
theorem layout_move? {m : Nat} {x : MoveNode} (h : a.move? m = some x) :
    a.layout.move? m = some x.place :=
  congrArg (Option.map MoveNode.place) h

/-- What is said of a line but not its place does not change the layout. -/
theorem layout_updateLine (a : Arena) (v : Nat) {change : LineNode → LineNode}
    (h : ∀ x, (change x).place = x.place) : (a.updateLine v change).layout = a.layout := by
  refine Layout.mk.injEq .. ▸ ⟨?_, rfl⟩
  funext w
  rw [line?_updateLine]
  split
  · rw [Option.map_map]
    exact congrArg (Option.map · _) (funext h)
  · rfl

/-- What is said of a move but not its place does not change the layout. -/
theorem layout_updateMove (a : Arena) (m : Nat) {change : MoveNode → MoveNode}
    (h : ∀ x, (change x).place = x.place) : (a.updateMove m change).layout = a.layout := by
  refine Layout.mk.injEq .. ▸ ⟨rfl, ?_⟩
  funext n
  rw [move?_updateMove]
  split
  · rw [Option.map_map]
    exact congrArg (Option.map · _) (funext h)
  · rfl

/-- A new move is put into the layout. -/
theorem layout_addMove {node : MoveNode} {line : LineNode}
    (hline : a.line? node.parent = some line) :
    (a.addMove node).layout = a.layout.withMove a.moves.size node.place := by
  refine Layout.mk.injEq .. ▸ ⟨?_, ?_⟩
  · funext w
    rw [line?_addMove hline]
    split
    · next hw => exact hw ▸ (layout_line? hline).symm
    · rfl
  · funext m
    rw [move?_addMove]
    split <;> rfl

/-- A new line is put into the layout. -/
theorem layout_addLine (a : Arena) (line : LineNode) :
    (a.addLine line).layout = a.layout.withLine a.lines.size line.place := by
  refine Layout.mk.injEq .. ▸ ⟨?_, ?_⟩
  · funext w
    rw [line?_addLine]
    split <;> rfl
  · funext m
    rw [move?_addLine]
    split
    · rw [Option.map_map]
      rfl
    · rfl

/-- A line that gets its end gets it in the layout. -/
theorem layout_close (a : Arena) (v stop : Nat) :
    (a.updateLine v fun line => { line with span := ⟨line.span.start, stop⟩ }).layout =
      a.layout.close v stop := by
  refine Layout.mk.injEq .. ▸ ⟨?_, rfl⟩
  funext w
  rw [line?_updateLine]
  by_cases hw : v = w
  · rw [if_pos hw, if_pos hw.symm, layout, Option.map_map, Option.map_map]
    rfl
  · rw [if_neg hw, if_neg (Ne.symm hw), layout]

end Arena

/-! ## Steps -/

namespace Filler

variable {t : Text} {s : Span} {f g : Filler} {pos : Nat}

/-- The lines that are open. -/
def opened (f : Filler) : List Nat :=
  (f.frame :: f.outer).map Frame.line

/-- So far the tables describe a tree whose lines and moves lie nested in front of `pos`. -/
structure Lies (t : Text) (s : Span) (pos : Nat) (f : Filler) : Prop where
  grows : f.Grows
  nesting : f.arena.layout.Nesting t s f.opened pos

/-- The innermost line is the last of the open ones. -/
theorem Grows.lt_frame (h : f.Grows) : ∀ u ∈ f.outer.map Frame.line, u < f.frame.line := by
  intro u hu
  obtain ⟨frame, hframe, rfl⟩ := List.mem_map.1 hu
  exact h.frames.lt_line frame hframe

/-- The main line is open from the start of the movetext. -/
theorem lies_start (t : Text) (s : Span) : (start s).Lies t s s.start where
  grows := grows_start s
  nesting := by
    -- There is one line, so whatever needs two of them, or a move, is void.
    have hline {v : Nat} {x : LinePlace} (h : (start s).arena.layout.line? v = some x) :
        v = 0 ∧ x = ⟨s, none, 0⟩ := by
      cases v with
      | zero => exact ⟨rfl, (Option.some.inj h).symm⟩
      | succ v => cases h
    constructor
    case main => exact ⟨_, rfl, rfl⟩
    case line_start =>
      intro v x hx
      obtain ⟨-, rfl⟩ := hline hx
      exact Nat.le_refl _
    case lines_increase =>
      intro v w x y hlt hx hy
      have := (hline hx).1
      have := (hline hy).1
      omega
    case opening =>
      intro v x hv hx
      have := (hline hx).1
      omega
    case closed =>
      intro v x hx hv
      rw [(hline hx).1] at hv
      exact absurd List.mem_cons_self hv
    case apart_or_inside =>
      intro v w x y hlt hx hy
      have := (hline hx).1
      have := (hline hy).1
      omega
    case move_extent => nofun
    case moves_apart => nofun
    case moves_inside => nofun
    case enclosed =>
      intro v x hv hx
      have := (hline hx).1
      omega

/-- What lies in front of an offset lies in front of any later one. -/
theorem Lies.mono (h : f.Lies t s pos) {pos' : Nat} (hpos : pos ≤ pos') : f.Lies t s pos' :=
  ⟨h.grows, h.nesting.mono hpos⟩

/-- A comment does not change where anything lies. -/
theorem Lies.comment (h : f.Lies t s pos) (text : String) : (f.comment text).Lies t s pos where
  grows := h.grows.comment text
  nesting := by
    have hnesting := h.nesting
    unfold Filler.comment
    split
    · exact hnesting
    · split
      · rw [Arena.layout_updateMove]
        · exact hnesting
        · exact fun _ => rfl
      · rw [Arena.layout_updateLine]
        · exact hnesting
        · exact fun _ => rfl

/-- A glyph does not change where anything lies. -/
theorem Lies.addNag (h : f.Lies t s pos) (nag : Nag) : (f.addNag nag).Lies t s pos where
  grows := h.grows.addNag nag
  nesting := by
    have hnesting := h.nesting
    unfold Filler.addNag
    split
    · rw [Arena.layout_updateMove]
      · exact hnesting
      · exact fun _ => rfl
    · exact hnesting

/-- A move behind all that was read lies in the innermost line. -/
theorem Lies.addMove (h : f.Lies t s pos) (san : String) {span : Span} (wellFormed : Bool)
    (hpos : pos ≤ span.start) (hspan : span.start < span.stop) :
    (f.addMove san span wellFormed).Lies t s span.stop where
  grows := h.grows.addMove san span wellFormed
  nesting := by
    obtain ⟨line, hline, -⟩ := h.grows.frames.head.line
    rw [Filler.addMove]
    rw [Arena.layout_addMove hline]
    apply h.nesting.withMove (x := ⟨span, f.frame.line⟩) ?_ List.mem_cons_self hpos hspan
    intro n y hy
    obtain ⟨node, hnode, -⟩ := Option.map_eq_some_iff.1 hy
    exact Arena.lt_of_move? hnode

/-- A variation behind all that was read lies in the innermost line. -/
theorem Lies.enter (h : f.Lies t s pos) {span : Span} (hpos : pos ≤ span.start)
    (hparen : t[span.start]? = some Byte.openParen) (hstop : span.stop = span.start + 1) :
    (f.enter span).Lies t s span.stop where
  grows := h.grows.enter span
  nesting := by
    obtain ⟨outer, houter, hdepth⟩ := h.grows.frames.head.line
    rw [Filler.enter]
    rw [Arena.layout_addLine]
    -- The innermost open line is the one that the new line starts in.
    refine h.nesting.withLine (w := f.frame.line)
      (x := ⟨⟨span.stop, span.stop⟩, f.frame.last, oneMore f.outer.length⟩) ?_ ?_ ?_
      List.mem_cons_self ?_ (Arena.layout_line? houter) ?_ ?_ ?_ ?_
    · intro u z hz
      obtain ⟨line, hline, -⟩ := Option.map_eq_some_iff.1 hz
      exact Arena.lt_of_line? hline
    · show pos < span.stop
      omega
    · show t[span.stop - 1]? = _
      rw [hstop]
      exact hparen
    · intro u hu
      obtain rfl | hu := List.mem_cons.1 hu
      · exact Nat.le_refl _
      · exact Nat.le_of_lt (h.grows.lt_frame u hu)
    · rw [LineNode.place, hdepth, oneMore_min]
    · intro m hm
      obtain ⟨node, hnode, hline⟩ := h.grows.frames.head.last hm
      exact ⟨node.place, Arena.layout_move? hnode, hline⟩
    · intro m z hz
      obtain ⟨node, hnode, rfl⟩ := Option.map_eq_some_iff.1 hz
      exact Nat.ne_of_lt (h.grows.tree.owned hnode)
    · exact Nat.ne_zero_of_lt (Arena.lt_of_line? houter)

/-- A closing parenthesis behind all that was read ends the innermost line. -/
theorem Lies.leave (h : f.Lies t s pos) {stop : Nat} {parent : Frame} {outer : List Frame}
    (houter : f.outer = parent :: outer) (hpos : pos ≤ stop)
    (hparen : t[stop]? = some Byte.closeParen) :
    (f.leave stop parent outer).Lies t s (stop + 1) where
  grows := h.grows.leave stop houter
  nesting := by
    rw [Filler.leave]
    rw [Arena.layout_close]
    have hlast := h.grows.lt_frame
    rw [houter] at hlast
    have hnesting := h.nesting
    rw [opened, houter] at hnesting
    refine Layout.Nesting.close hnesting hlast hpos ?_ hparen
    have := hlast parent.line List.mem_cons_self
    omega

/-- One step keeps everything in its place. -/
theorem Lies.step {stop : Nat} {lexeme : Lexeme} {rest : List Lexeme} (h : f.Lies t s pos)
    (hlaid : LaidOut t stop pos (lexeme :: rest)) (hstep : f.step? lexeme = some g) :
    ∃ pos', g.Lies t s pos' ∧ LaidOut t stop pos' rest ∧ (pos ≤ stop → pos' ≤ stop) := by
  -- A comment does not move the position that everything lies in front of, a token does.
  cases lexeme with
  | comment body text =>
    cases hstep
    exact ⟨pos, h.comment text, hlaid, id⟩
  | openEnd problem =>
    cases hstep
    exact ⟨pos, h, hlaid, id⟩
  | token token span =>
    obtain ⟨⟨hpos, hspan, hend⟩, hopening, hclosing, hrest⟩ := hlaid
    refine ⟨span.stop, ?_, hrest, fun _ => hend⟩
    have hmono := h.mono (Nat.le_trans hpos (Nat.le_of_lt hspan))
    cases token with
    | number n =>
      cases hstep
      exact ⟨⟨hmono.grows.tree, hmono.grows.frames⟩, hmono.nesting⟩
    | san text wellFormed =>
      cases hstep
      exact h.addMove text wellFormed hpos hspan
    | nag nag =>
      cases hstep
      exact hmono.addNag nag
    | badNag =>
      cases hstep
      exact hmono
    | unexpected =>
      cases hstep
      exact hmono
    | opening =>
      cases hstep
      obtain ⟨hparen, hstop⟩ := hopening rfl
      exact h.enter hpos hparen hstop
    | closing =>
      simp only [step?] at hstep
      split at hstep
      · cases hstep
      · next houter =>
        cases hstep
        exact (h.leave houter hpos (hclosing rfl)).mono hspan
    | marker outcome =>
      simp only [step?] at hstep
      split at hstep
      · cases hstep
      · cases hstep
        exact hmono
    | badMarker =>
      simp only [step?] at hstep
      split at hstep
      · cases hstep
      · cases hstep
        exact hmono

/-- So does the whole run. -/
theorem Lies.exists_run {stop : Nat} {lexemes : List Lexeme} (h : f.Lies t s pos)
    (hlaid : LaidOut t stop pos lexemes) :
    ∃ pos', (f.run lexemes).Lies t s pos' ∧ (pos ≤ stop → pos' ≤ stop) := by
  induction lexemes generalizing f pos with
  | nil => exact ⟨pos, h, id⟩
  | cons lexeme rest ih =>
    rw [Filler.run]
    split
    · next next hstep =>
      obtain ⟨pos', hnext, hrest, hend⟩ := h.step hlaid hstep
      obtain ⟨pos'', hlast, hend'⟩ := ih hnext hrest
      exact ⟨pos'', hlast, fun hpos => hend' (hend hpos)⟩
    · exact ⟨pos, h, id⟩

/-- Lexemes that are laid out one behind the other are read so that everything lies in its place. -/
theorem Lies.run {stop : Nat} {lexemes : List Lexeme} (h : f.Lies t s pos)
    (hlaid : LaidOut t stop pos lexemes) (hpos : pos ≤ stop) :
    ∃ pos', (f.run lexemes).Lies t s pos' ∧ pos' ≤ stop := by
  obtain ⟨pos', hlast, hend⟩ := h.exists_run hlaid
  exact ⟨pos', hlast, hend hpos⟩

/-! ### What lies nested at the end -/

section Lying

variable (h : f.Lies t s pos)

include h

/-- The main line has its end from the start. -/
theorem Lies.main_span {x : LineNode} (hx : f.arena.line? 0 = some x) : x.span = s := by
  obtain ⟨place, hplace, hspan⟩ := h.nesting.main
  cases (Arena.layout_line? hx).symm.trans hplace
  exact hspan

/-- Lines are numbered as they start. -/
theorem Lies.lines_increase {v w : Nat} {x y : LineNode} (hlt : v < w)
    (hx : f.arena.line? v = some x) (hy : f.arena.line? w = some y) :
    x.span.start < y.span.start :=
  h.nesting.lines_increase v w x.place y.place hlt (Arena.layout_line? hx) (Arena.layout_line? hy)

/-- Moves are numbered as they stand, without overlapping. -/
theorem Lies.moves_apart {m n : Nat} {x y : MoveNode} (hlt : m < n)
    (hx : f.arena.move? m = some x) (hy : f.arena.move? n = some y) :
    x.span.stop ≤ y.span.start :=
  h.nesting.moves_apart m n x.place y.place hlt (Arena.layout_move? hx) (Arena.layout_move? hy)

/-- A move is not empty and ends in what was read. -/
theorem Lies.move_extent {m : Nat} {x : MoveNode} (hx : f.arena.move? m = some x) :
    x.span.start < x.span.stop ∧ x.span.stop ≤ pos :=
  h.nesting.move_extent m x.place (Arena.layout_move? hx)

variable (houter : f.outer = []) (hpos : pos ≤ s.stop)

include houter

/-- Only the main line is open. -/
theorem Lies.not_mem_opened {v : Nat} (hv : 0 < v) : v ∉ f.opened := by
  have hframes := h.grows.frames
  rw [houter] at hframes
  rw [opened, houter, List.map_cons, List.map_nil, List.mem_singleton, hframes.2]
  omega

/-- A variation has its parentheses around it. -/
theorem Lies.parentheses {v : Nat} {x : LineNode} (hv : 0 < v) (hx : f.arena.line? v = some x) :
    0 < x.span.start ∧ x.span.start ≤ x.span.stop ∧
      t[x.span.start - 1]? = some Byte.openParen ∧ t[x.span.stop]? = some Byte.closeParen := by
  have hplace := Arena.layout_line? hx
  obtain ⟨hpositive, hopen⟩ := h.nesting.opening v x.place hv hplace
  obtain ⟨hle, hclose, -⟩ := h.nesting.closed v x.place hplace (h.not_mem_opened houter hv)
  exact ⟨hpositive, hle, hopen, hclose⟩

include hpos

/-- A variation ends in front of the end of the main line. -/
theorem Lies.stop_lt {v : Nat} {x : LineNode} (hv : 0 < v) (hx : f.arena.line? v = some x) :
    x.span.stop < s.stop := by
  obtain ⟨-, -, hlt⟩ :=
    h.nesting.closed v x.place (Arena.layout_line? hx) (h.not_mem_opened houter hv)
  exact Nat.lt_of_lt_of_le hlt hpos

/-- The moves of a line lie in it. -/
theorem Lies.moves_inside {v i m : Nat} {line : LineNode} {x : MoveNode}
    (hline : f.arena.line? v = some line) (hi : line.moves[i]? = some m)
    (hx : f.arena.move? m = some x) :
    line.span.start ≤ x.span.start ∧ x.span.start < x.span.stop ∧
      x.span.stop ≤ line.span.stop := by
  obtain ⟨node, hnode, rfl⟩ := (h.grows.tree.mem_moves hline).1 (Array.mem_of_getElem? hi)
  cases hx.symm.trans hnode
  obtain ⟨hstart, hstop⟩ := h.nesting.moves_inside m x.place line.place (Arena.layout_move? hx)
    (Arena.layout_line? hline)
  refine ⟨hstart, (h.move_extent hx).1, ?_⟩
  rcases Nat.eq_zero_or_pos x.parent with hzero | hpositive
  · rw [hzero] at hline
    rw [h.main_span hline]
    exact Nat.le_trans (h.move_extent hx).2 hpos
  · exact hstop (h.not_mem_opened houter hpositive)

/-- Of two lines the later one is behind the other or inside it. -/
theorem Lies.apart_or_inside {v w : Nat} {x y : LineNode} (hlt : v < w)
    (hx : f.arena.line? v = some x) (hy : f.arena.line? w = some y) :
    x.span.stop < y.span.start ∨ x.span.start ≤ y.span.start ∧ y.span.stop ≤ x.span.stop := by
  rcases Nat.eq_zero_or_pos v with rfl | hpositive
  · right
    have hstart := Nat.le_of_lt (h.lines_increase hlt hx hy)
    rw [h.main_span hx] at hstart ⊢
    exact ⟨hstart, Nat.le_of_lt (h.stop_lt houter hpos hlt hy)⟩
  · refine (h.nesting.apart_or_inside v w x.place y.place hlt (Arena.layout_line? hx)
      (Arena.layout_line? hy) (h.not_mem_opened houter hpositive)).imp_right fun hinside => ?_
    exact ⟨Nat.le_of_lt (h.lines_increase hlt hx hy), Nat.le_of_lt hinside.2⟩

/-- The line around a variation is the last that starts in front of it and ends behind it: the lines
in between ended before, and those after it start behind its parenthesis. -/
theorem Lies.enclosed {v : Nat} {x : LineNode} (hv : 0 < v) (hx : f.arena.line? v = some x) :
    ∃ w outer, f.arena.Innermost (x.span.start - 1) w ∧ f.arena.line? w = some outer ∧ w < v ∧
      outer.span.start < x.span.start ∧ x.span.stop < outer.span.stop ∧
      x.depth = oneMore outer.depth ∧
      ∀ m, x.parent = some m → ∃ node, f.arena.move? m = some node ∧ node.parent = w := by
  -- The line found around `x` when `x` was opened is the innermost one around its parenthesis.
  obtain ⟨w, z, hz, hwv, hdepth, hbranch, hbetween, hstop⟩ :=
    h.nesting.enclosed v x.place hv (Arena.layout_line? hx)
  obtain ⟨outer, houter', rfl⟩ := Option.map_eq_some_iff.1 hz
  have hstart := h.lines_increase hwv houter' hx
  have hle := (h.parentheses houter hv hx).2.1
  -- The main line ends at the end of the text, any other at its parenthesis.
  have houterstop : x.span.stop < outer.span.stop := by
    rcases Nat.eq_zero_or_pos w with rfl | hpositive
    · rw [h.main_span houter']
      exact h.stop_lt houter hpos hv hx
    · exact (hstop.resolve_left (h.not_mem_opened houter hpositive)).2
  refine ⟨w, outer, ⟨⟨outer, houter', by omega, by omega⟩, ?_⟩, houter', hwv, hstart, houterstop,
    hdepth, ?_⟩
  · -- A line further inside would have been opened between the two, and then it has ended by now.
    rintro u y hwu hy ⟨hbefore, hbehind⟩
    rcases Nat.lt_trichotomy u v with hlt | rfl | hgt
    · have hgap : y.span.stop + 1 < x.span.start :=
        (hbetween u y.place hwu hlt (Arena.layout_line? hy)).2
      omega
    · cases hx.symm.trans hy
      omega
    · have := h.lines_increase hgt hx hy
      omega
  · intro m hm
    obtain ⟨y, hy, hyw⟩ := hbranch m hm
    obtain ⟨node, hnode, rfl⟩ := Option.map_eq_some_iff.1 hy
    exact ⟨node, hnode, hyw⟩

/-- Where only the main line is left open, everything lies nested in the span of the main line. -/
theorem Lies.nested : f.arena.Nested t s where
  main := by
    obtain ⟨line, hline, -⟩ := h.grows.tree.main
    exact ⟨line, hline, h.main_span hline⟩
  lines_increase := h.lines_increase
  moves_increase hlt hx hy := Nat.lt_of_lt_of_le (h.move_extent hx).1 (h.moves_apart hlt hx hy)
  moves_inside := h.moves_inside houter hpos
  moves_apart := by
    intro v line i j m n x y hline hlt hi hj hx hy
    have hsorted := List.pairwise_iff_getElem.1 (h.grows.tree.sorted hline)
    obtain ⟨hi', rfl⟩ := Array.getElem?_eq_some_iff.1 hi
    obtain ⟨hj', rfl⟩ := Array.getElem?_eq_some_iff.1 hj
    exact h.moves_apart (hsorted i j hi' hj' hlt) hx hy
  parentheses := h.parentheses houter
  apart_or_inside := h.apart_or_inside houter hpos
  enclosed := h.enclosed houter hpos

end Lying

end Filler

end Scorebook
