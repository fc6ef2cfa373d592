import Scorebook.Proofs.Movetext.Descent
import Scorebook.Proofs.Movetext.Nesting

/-!
# The tables and the tree of a score

A score can be kept as a tree (`Reader.run`) or in two tables (`Filler.run`). Both are built in one
pass over the same lexemes, and here they are shown to be the same: the tables, followed from line
0, draw the main line of the score (`View.Draws`).

While both are built, what is finished in the tree is finished in the tables as well. Only the lines
that are open, and the last move of each of them, still change. A `View` leaves these out, so that
what it shows stays as it is.
-/

namespace Scorebook

/-! ## Drawn lines -/

/-- Two tables, or a part of them. -/
structure View where
  line? : Nat → Option LineNode
  move? : Nat → Option MoveNode

/-- The move as an entry of the table of moves. -/
def Move.node (m : Move) (variations : Array Nat) (parent : Nat) : MoveNode :=
  ⟨m.san, m.span, m.number, m.indicated, m.comment, m.nags, m.wellFormed, variations, parent⟩

namespace View

mutual

/-- The view shows the line, as an alternative to the move `parent`, with everything in it. -/
def Draws (w : View) (parent : Option Nat) : Variation → Prop
  | ⟨id, depth, span, comment, moves, strays⟩ =>
    (∃ ids : Array Nat, w.line? id = some ⟨parent, ids, span, comment, depth⟩ ∧
      w.DrawsMoves id ids.toList moves) ∧
    w.DrawsLines none strays

/-- The view shows these moves in these places, as moves of `line`. -/
def DrawsMoves (w : View) (line : Nat) (ids : List Nat) : List Move → Prop
  | [] => ids = []
  | m :: ms => ∃ id rest, ids = id :: rest ∧ w.DrawsMove line id m ∧ w.DrawsMoves line rest ms

/-- The view shows the move in place `id`, as a move of `line`, with its alternatives. -/
def DrawsMove (w : View) (line id : Nat) : Move → Prop
  | ⟨san, span, number, indicated, comment, nags, wellFormed, variations⟩ =>
    (∃ ids : Array Nat,
      w.move? id =
        some ⟨san, span, number, indicated, comment, nags, wellFormed, ids, line⟩ ∧
      ids.toList = variations.map Variation.id) ∧
    w.DrawsLines (some id) variations

/-- The view shows all these lines. -/
def DrawsLines (w : View) (parent : Option Nat) : List Variation → Prop
  | [] => True
  | v :: vs => w.Draws parent v ∧ w.DrawsLines parent vs

end

/-- The second view shows what the first one does. -/
structure Extends (w w' : View) : Prop where
  line : ∀ {v x}, w.line? v = some x → w'.line? v = some x
  move : ∀ {m x}, w.move? m = some x → w'.move? m = some x

variable {w w' : View}

mutual

/-- A line that is drawn is drawn in any view that shows more. -/
theorem Draws.mono (h : w.Extends w') {parent : Option Nat} :
    ∀ {v : Variation}, w.Draws parent v → w'.Draws parent v
  | ⟨_, _, _, _, _, _⟩, hv => by
    rw [Draws] at hv ⊢
    obtain ⟨⟨ids, hline, hmoves⟩, hstrays⟩ := hv
    exact ⟨⟨ids, h.line hline, DrawsMoves.mono h hmoves⟩, DrawsLines.mono h hstrays⟩

/-- So are moves. -/
theorem DrawsMoves.mono (h : w.Extends w') {line : Nat} :
    ∀ {ids : List Nat} {ms : List Move}, w.DrawsMoves line ids ms → w'.DrawsMoves line ids ms
  | _, [], hms => by
    rw [DrawsMoves] at hms ⊢
    exact hms
  | _, m :: ms, hms => by
    rw [DrawsMoves] at hms ⊢
    obtain ⟨id, rest, hids, hmove, hmoves⟩ := hms
    exact ⟨id, rest, hids, DrawsMove.mono h hmove, DrawsMoves.mono h hmoves⟩

/-- So is one move. -/
theorem DrawsMove.mono (h : w.Extends w') {line id : Nat} :
    ∀ {m : Move}, w.DrawsMove line id m → w'.DrawsMove line id m
  | ⟨_, _, _, _, _, _, _, _⟩, hm => by
    rw [DrawsMove] at hm ⊢
    obtain ⟨⟨ids, hmove, hids⟩, hlines⟩ := hm
    exact ⟨⟨ids, h.move hmove, hids⟩, DrawsLines.mono h hlines⟩

/-- So are lines that branch from one move. -/
theorem DrawsLines.mono (h : w.Extends w') {parent : Option Nat} :
    ∀ {vs : List Variation}, w.DrawsLines parent vs → w'.DrawsLines parent vs
  | [], _ => by
    rw [DrawsLines]
    trivial
  | v :: vs, hvs => by
    rw [DrawsLines] at hvs ⊢
    exact ⟨Draws.mono h hvs.1, DrawsLines.mono h hvs.2⟩

end

/-- Moves are drawn part by part. -/
theorem drawsMoves_append {line : Nat} {ids ids' : List Nat} {ms ms' : List Move}
    (h : w.DrawsMoves line ids ms) (h' : w.DrawsMoves line ids' ms') :
    w.DrawsMoves line (ids ++ ids') (ms ++ ms') := by
  induction ms generalizing ids with
  | nil =>
    rw [DrawsMoves] at h
    rw [h]
    exact h'
  | cons m ms ih =>
    rw [DrawsMoves] at h
    obtain ⟨id, rest, rfl, hmove, hmoves⟩ := h
    rw [List.cons_append, List.cons_append, DrawsMoves]
    exact ⟨id, rest ++ ids', rfl, hmove, ih hmoves⟩

/-- Lines are drawn part by part. -/
theorem drawsLines_append {parent : Option Nat} {vs vs' : List Variation}
    (h : w.DrawsLines parent vs) (h' : w.DrawsLines parent vs') :
    w.DrawsLines parent (vs ++ vs') := by
  induction vs with
  | nil => exact h'
  | cons v vs ih =>
    rw [DrawsLines] at h
    rw [List.cons_append, DrawsLines]
    exact ⟨h.1, ih h.2⟩

/-- A move is drawn by its node and by the lines that branch from it. -/
theorem drawsMove_iff {line id : Nat} {m : Move} :
    w.DrawsMove line id m ↔
      (∃ ids, w.move? id = some (m.node ids line) ∧ ids.toList = m.variations.map Variation.id) ∧
        w.DrawsLines (some id) m.variations := by
  cases m
  rw [DrawsMove]
  rfl

end View

/-! ## Open lines -/

/-- An open line as the tree and as the tables have it: what of it is finished is drawn. It branches
from the move `parent`, and `inner` are the variations that are open in it. -/
structure OpenLine.DrawnBy (a : Arena) (w : View) (parent : Option Nat) (inner : List Nat)
    (frame : Frame) (l : OpenLine) : Prop where
  place : l.id = frame.line
  line : ∃ node, a.line? frame.line = some node ∧ node.parent = parent ∧
    node.span.start = l.start ∧ node.comment = l.comment ∧ node.depth = l.depth ∧
    l.count = min node.moves.size lastCount ∧
    ∃ settled, node.moves.toList = settled ++ frame.last.toList ∧
      w.DrawsMoves frame.line settled l.moves.reverse
  last : l.last = none ∧ frame.last = none ∨ ∃ m i ids, l.last = some m ∧ frame.last = some i ∧
    a.move? i = some (m.node ids frame.line) ∧
    ids.toList = l.branches.reverse.map Variation.id ++ inner
  branches : w.DrawsLines frame.last l.branches.reverse
  strays : w.DrawsLines none l.strays

/-- Settling a line gives its last move the branches that waited for it. -/
theorem OpenLine.settle_eq (l : OpenLine) : l.settle.id = l.id ∧ l.settle.depth = l.depth ∧
    l.settle.start = l.start ∧ l.settle.comment = l.comment ∧ l.settle.branches = [] := by
  unfold settle
  split <;> exact ⟨rfl, rfl, rfl, rfl, rfl⟩

namespace OpenLine.DrawnBy

variable {a b : Arena} {w w' : View} {parent : Option Nat} {inner : List Nat} {frame : Frame}
  {l : OpenLine}

/-- An open line that does not change stays as it is. -/
theorem mono (h : l.DrawnBy a w parent inner frame) (hw : w.Extends w')
    (hline : b.line? frame.line = a.line? frame.line)
    (hlast : ∀ i, frame.last = some i → b.move? i = a.move? i) :
    l.DrawnBy b w' parent inner frame where
  place := h.place
  line := by
    obtain ⟨node, hnode, hparent, hstart, hcomment, hdepth, hcount, settled, hsettled, hmoves⟩ :=
      h.line
    exact ⟨node, hline.trans hnode, hparent, hstart, hcomment, hdepth, hcount, settled, hsettled,
      hmoves.mono hw⟩
  last := by
    refine h.last.imp (fun hnone => hnone) ?_
    rintro ⟨m, i, ids, hm, hi, hnode, hids⟩
    exact ⟨m, i, ids, hm, hi, (hlast i hi).trans hnode, hids⟩
  branches := h.branches.mono hw
  strays := h.strays.mono hw

/-- When the last move is finished, all moves of the line are. -/
theorem settle (h : l.DrawnBy a w parent [] frame) (hw : w.Extends w')
    (hlast : ∀ i, frame.last = some i → w'.move? i = a.move? i) :
    ∃ node, a.line? frame.line = some node ∧ node.parent = parent ∧
      node.span.start = l.start ∧ node.comment = l.comment ∧ node.depth = l.depth ∧
      l.count = min node.moves.size lastCount ∧
      w'.DrawsMoves frame.line node.moves.toList l.settle.moves.reverse ∧
      w'.DrawsLines none l.settle.strays := by
  obtain ⟨node, hnode, hparent, hstart, hcomment, hdepth, hcount, settled, hsettled, hmoves⟩ :=
    h.line
  refine ⟨node, hnode, hparent, hstart, hcomment, hdepth, hcount, ?_⟩
  have hmoves' := hmoves.mono hw
  have hbranches := h.branches.mono hw
  obtain ⟨hnone, hframe⟩ | ⟨m, i, ids, hm, hi, hmove, hids⟩ := h.last
  · -- A line without moves has nothing to settle.
    rw [hframe] at hsettled hbranches
    rw [hsettled, OpenLine.settle, hnone, Option.toList_none, List.append_nil]
    exact ⟨hmoves', hbranches⟩
  · -- Its last move joins the finished ones, with the alternatives that were collected for it.
    rw [hi] at hsettled hbranches
    rw [hsettled, OpenLine.settle, hm]
    refine ⟨?_, h.strays.mono hw⟩
    rw [List.reverse_cons]
    apply View.drawsMoves_append hmoves'
    rw [View.DrawsMoves]
    refine ⟨i, [], rfl, View.drawsMove_iff.2 ⟨⟨ids, ?_, ?_⟩, hbranches⟩, ?_⟩
    · rw [hlast i hi, hmove]
      rfl
    · rw [hids, List.append_nil]
    · rw [View.DrawsMoves]

/-- A line that is closed is drawn. -/
theorem close (h : l.DrawnBy a w parent [] frame) (hw : w.Extends w') {stop : Nat}
    (hlast : ∀ i, frame.last = some i → w'.move? i = a.move? i)
    (hline : ∀ {node}, a.line? frame.line = some node →
      w'.line? frame.line = some { node with span := ⟨node.span.start, stop⟩ }) :
    w'.Draws parent (l.close stop) := by
  obtain ⟨node, hnode, hparent, hstart, hcomment, hdepth, -, hmoves, hstrays⟩ := h.settle hw hlast
  have hnode' := hline hnode
  obtain ⟨hid, hdepth', hstart', hcomment', -⟩ := l.settle_eq
  rw [OpenLine.close, View.Draws, hid, hdepth', hstart', hcomment', h.place]
  refine ⟨⟨node.moves, ?_, hmoves⟩, hstrays⟩
  rw [hnode', ← hparent, ← hstart, ← hcomment, ← hdepth]

end OpenLine.DrawnBy

/-! ## Both passes -/

/-- The open lines of the tree and those of the tables, the innermost first. In the current line the
variations `inner` are open. -/
def DrawnStack (a : Arena) (w : View) (inner : List Nat) (line : OpenLine) (frame : Frame) :
    List OpenLine → List Frame → Prop
  | [], [] => line.DrawnBy a w none inner frame
  | parent :: lines, frame' :: frames =>
    line.DrawnBy a w frame'.last inner frame ∧
      DrawnStack a w [frame.line] parent frame' lines frames
  | _, _ => False

namespace DrawnStack

variable {a b : Arena} {w w' : View} {inner inner' : List Nat} {frame frame' : Frame}
  {line line' : OpenLine} {lines : List OpenLine} {frames : List Frame}

/-- Lines that do not change stay as they are. -/
theorem mono (h : DrawnStack a w inner line frame lines frames) (hw : w.Extends w')
    (hkeep : ∀ other ∈ frame :: frames, b.line? other.line = a.line? other.line ∧
      ∀ i, other.last = some i → b.move? i = a.move? i) :
    DrawnStack b w' inner line frame lines frames := by
  -- By the frames. Each has its line, so the cases where one side has run out are void.
  induction frames generalizing inner line frame lines with
  | nil =>
    cases lines with
    | nil =>
      obtain ⟨hline, hlast⟩ := hkeep frame List.mem_cons_self
      exact OpenLine.DrawnBy.mono h hw hline hlast
    | cons => exact h.elim
  | cons frame' frames ih =>
    cases lines with
    | nil => exact h.elim
    | cons parent lines =>
      obtain ⟨hline, hlast⟩ := hkeep frame List.mem_cons_self
      exact ⟨h.1.mono hw hline hlast, ih h.2 fun other hother =>
        hkeep other (List.mem_cons_of_mem _ hother)⟩

/-- Only the current line changes. -/
theorem update (h : DrawnStack a w inner line frame lines frames) (hw : w.Extends w')
    (hkeep : ∀ other ∈ frames, b.line? other.line = a.line? other.line ∧
      ∀ i, other.last = some i → b.move? i = a.move? i)
    (hplace : frame'.line = frame.line)
    (hhead : ∀ {parent}, line.DrawnBy a w parent inner frame →
      line'.DrawnBy b w' parent inner' frame') :
    DrawnStack b w' inner' line' frame' lines frames := by
  cases frames with
  | nil =>
    cases lines with
    | nil => exact hhead h
    | cons => exact h.elim
  | cons frame' frames =>
    cases lines with
    | nil => exact h.elim
    | cons parent lines => exact ⟨hhead h.1, hplace ▸ h.2.mono hw hkeep⟩

/-- The innermost line is drawn by the innermost frame. -/
theorem head (h : DrawnStack a w inner line frame lines frames) :
    ∃ parent, line.DrawnBy a w parent inner frame := by
  cases frames with
  | nil =>
    cases lines with
    | nil => exact ⟨none, h⟩
    | cons => exact h.elim
  | cons frame' frames =>
    cases lines with
    | nil => exact h.elim
    | cons parent lines => exact ⟨frame'.last, h.1⟩

end DrawnStack

namespace Filler

/-- The last moves of the open lines. -/
def lasts (f : Filler) : List (Option Nat) :=
  (f.frame :: f.outer).map Frame.last

/-- The part of the tables that is finished: all but the open lines and their last moves. -/
def view (f : Filler) : View where
  line? v := if v ∈ f.opened then none else f.arena.line? v
  move? m := if some m ∈ f.lasts then none else f.arena.move? m

/-- The two passes have come to the same. -/
structure Draws (f : Filler) (r : Reader) : Prop where
  lines : DrawnStack f.arena f.view [] r.line f.frame r.outer f.outer
  number : r.number = f.number
  opened : r.opened = f.arena.lines.size

variable {f g : Filler} {r : Reader}

/-- What is finished stays as it is. -/
theorem view_extends
    (hline : ∀ v x, v ∉ f.opened → f.arena.line? v = some x →
      v ∉ g.opened ∧ g.arena.line? v = some x)
    (hmove : ∀ m x, some m ∉ f.lasts → f.arena.move? m = some x →
      some m ∉ g.lasts ∧ g.arena.move? m = some x) : f.view.Extends g.view where
  line := by
    intro v x hx
    -- What the larger view hides was hidden before, so the condition of the `if` is decided.
    simp only [view] at hx ⊢
    split at hx
    · cases hx
    · next hv =>
      obtain ⟨hg, hx'⟩ := hline v x hv hx
      rw [if_neg hg, hx']
  move := by
    intro m x hx
    simp only [view] at hx ⊢
    split at hx
    · cases hx
    · next hm =>
      obtain ⟨hg, hx'⟩ := hmove m x hm hx
      rw [if_neg hg, hx']

/-- A move that no frame has for its last is in view. -/
theorem view_move? {m : Nat} (h : some m ∉ f.lasts) : f.view.move? m = f.arena.move? m :=
  if_neg h

/-- The lines around the current one, and their last moves, are others than the current one and
its. -/
theorem Grows.apart (h : f.Grows) {other : Frame} (hother : other ∈ f.outer) :
    other.line < f.frame.line ∧ ∀ {i}, other.last = some i →
      i < f.arena.moves.size ∧ f.frame.last ≠ some i := by
  have hlt := h.frames.lt_line other hother
  refine ⟨hlt, ?_⟩
  intro i hi
  obtain ⟨node, hnode, hline⟩ := h.frames.fits hother hi
  refine ⟨Arena.lt_of_move? hnode, ?_⟩
  intro hlast
  obtain ⟨node', hnode', hline'⟩ := h.frames.head.last hlast
  cases hnode.symm.trans hnode'
  omega

/-- A line that is not open is not the innermost one either. -/
theorem not_mem_opened {v : Nat} : v ∉ f.opened → v ≠ f.frame.line :=
  fun hv heq => hv (heq ▸ List.mem_cons_self)

/-- A move that no frame has for its last is not the last one of the innermost line. -/
theorem not_mem_lasts {m : Nat} : some m ∉ f.lasts → f.frame.last ≠ some m :=
  fun hm heq => hm (heq ▸ List.mem_cons_self)

/-! ### Steps inside a line -/

/-- What is said about the current line, or about its last move, may change in both. -/
theorem Draws.within (h : f.Draws r) (hgrows : f.Grows) {arena : Arena} {line : OpenLine}
    (hline : ∀ v, v ≠ f.frame.line → arena.line? v = f.arena.line? v)
    (hmove : ∀ m, f.frame.last ≠ some m → arena.move? m = f.arena.move? m)
    (hsize : arena.lines.size = f.arena.lines.size)
    (hhead : ∀ {parent w}, r.line.DrawnBy f.arena f.view parent [] f.frame → f.view.Extends w →
      line.DrawnBy arena w parent [] f.frame) :
    Draws { f with arena } { r with line } where
  number := h.number
  opened := h.opened.trans hsize.symm
  lines := by
    -- Only the line that is open and its last move differ, and the view hides both.
    have hextends : f.view.Extends (view { f with arena }) := by
      apply view_extends
      · intro v x hv hx
        exact ⟨hv, (hline v (not_mem_opened hv)).trans hx⟩
      · intro m x hm hx
        exact ⟨hm, (hmove m (not_mem_lasts hm)).trans hx⟩
    refine h.lines.update hextends ?_ rfl fun hdrawn => hhead hdrawn hextends
    -- The lines further out, and the moves they end with, are elsewhere in the tables.
    intro other hother
    obtain ⟨hlt, hlast⟩ := hgrows.apart hother
    exact ⟨hline _ (Nat.ne_of_lt hlt), fun i hi => hmove i (hlast hi).2⟩

/-- What is said about the last move may change. -/
theorem Draws.annotate (h : f.Draws r) (hgrows : f.Grows) {i : Nat} {m m' : Move}
    {change : MoveNode → MoveNode} (hi : f.frame.last = some i) (hm : r.line.last = some m)
    (hnumber : m'.number = m.number)
    (hchange : ∀ ids parent, change (m.node ids parent) = m'.node ids parent) :
    Draws { f with arena := f.arena.updateMove i change }
      { r with line := { r.line with last := some m' } } := by
  apply h.within hgrows
  · intro v hv
    rfl
  · intro n hn
    rw [Arena.move?_updateMove, if_neg]
    rw [hi] at hn
    exact fun heq => hn (congrArg some heq)
  · rfl
  · intro parent w hdrawn hw
    -- A line whose last move is missing is not of the kind assumed; otherwise it is the move `m`.
    obtain ⟨node, hnode, hparent, hstart, hcomment, hdepth, hcount, settled, hsettled, hmoves⟩ :=
      hdrawn.line
    obtain ⟨hnone, -⟩ | ⟨n, j, ids, hn, hj, hmove, hids⟩ := hdrawn.last
    · cases hnone.symm.trans hm
    · cases hn.symm.trans hm
      cases hi.symm.trans hj
      refine ⟨hdrawn.place, ⟨node, hnode, hparent, hstart, hcomment, hdepth, ?_, settled, hsettled,
        hmoves.mono hw⟩, .inr ⟨m', i, ids, rfl, hj, ?_, hids⟩, hdrawn.branches.mono hw,
        hdrawn.strays.mono hw⟩
      · rw [← hcount, OpenLine.count, OpenLine.count, hm, Option.map_some, Option.map_some, hnumber]
      · rw [Arena.move?_updateMove, if_pos rfl, hmove, Option.map_some, hchange]

/-- The last moves of both passes are there or not. -/
theorem Draws.last (h : f.Draws r) : r.line.last = none ∧ f.frame.last = none ∨
    ∃ m i, r.line.last = some m ∧ f.frame.last = some i := by
  obtain ⟨parent, hdrawn⟩ := h.lines.head
  obtain hnone | ⟨m, i, -, hm, hi, -⟩ := hdrawn.last
  · exact .inl hnone
  · exact .inr ⟨m, i, hm, hi⟩

/-- Noting a problem draws nothing. -/
theorem Draws.note (h : f.Draws r) (problem : Problem) : f.Draws (r.note problem) :=
  ⟨h.lines, h.number, h.opened⟩

/-- A comment is drawn at the last move, or at the line if it has none. -/
theorem Draws.comment (h : f.Draws r) (hgrows : f.Grows) (text : String) :
    (f.comment text).Draws { r with line := r.line.addComment text } := by
  unfold Filler.comment OpenLine.addComment
  split
  · exact h
  · -- Before the first move the comment is one on the line, behind it one on the move.
    obtain ⟨hm, hi⟩ | ⟨m, i, hm, hi⟩ := h.last
    · rw [hm, hi]
      apply h.within hgrows
      · intro v hv
        exact (Arena.line?_updateLine ..).trans (if_neg (Ne.symm hv))
      · intro m _
        rfl
      · exact Array.size_modify
      · intro parent w hdrawn hw
        obtain ⟨node, hnode, hparent, hstart, hcomment, hdepth, hcount, settled, hsettled,
          hmoves⟩ := hdrawn.line
        refine ⟨hdrawn.place, ⟨{ node with comment := joinComment node.comment text }, ?_, hparent,
          hstart, ?_, hdepth, ?_, settled, hsettled, hmoves.mono hw⟩, .inl ⟨rfl, hi⟩,
          hdrawn.branches.mono hw, hdrawn.strays.mono hw⟩
        · rw [Arena.line?_updateLine, if_pos rfl, hnode, Option.map_some]
        · rw [hcomment]
        · rw [← hcount]
          simp only [OpenLine.count, hm]
    · rw [hm, hi]
      exact h.annotate hgrows hi hm rfl fun _ _ => rfl

/-- A glyph is drawn at the last move. -/
theorem Draws.addNag (h : f.Draws r) (hgrows : f.Grows) {nag : Nag} {line : OpenLine}
    (hline : r.line.addNag? nag = some line) : (f.addNag nag).Draws { r with line } := by
  unfold OpenLine.addNag? at hline
  obtain ⟨hm, -⟩ | ⟨m, i, hm, hi⟩ := h.last
  · rw [hm] at hline
    cases hline
  · rw [hm] at hline
    cases hline
    rw [Filler.addNag, hi]
    exact h.annotate hgrows hi hm rfl fun _ _ => rfl

/-- A glyph without a move is drawn nowhere. -/
theorem Draws.addNag_of_none (h : f.Draws r) {nag : Nag} (hline : r.line.addNag? nag = none) :
    (f.addNag nag).Draws r := by
  obtain ⟨-, hi⟩ | ⟨m, i, hm, -⟩ := h.last
  · rw [Filler.addNag, hi]
    exact h
  · rw [OpenLine.addNag?, hm] at hline
    cases hline

/-- A new move is listed by the line that is open. -/
theorem line?_addMove {line : LineNode} (hline : f.arena.line? f.frame.line = some line)
    (san : String) (span : Span) (wellFormed : Bool) (v : Nat) :
    (f.addMove san span wellFormed).arena.line? v =
      if v = f.frame.line then some { line with moves := line.moves.push f.arena.moves.size }
      else f.arena.line? v :=
  Arena.line?_addMove hline v

/-- A new move is the last of its table. -/
theorem move?_addMove (f : Filler) (san : String) (span : Span) (wellFormed : Bool) (m : Nat) :
    (f.addMove san span wellFormed).arena.move? m =
      if m = f.arena.moves.size then some ⟨san, span, oneMore f.count, f.number, none, #[],
        wellFormed, #[], f.frame.line⟩
      else f.arena.move? m :=
  Arena.move?_addMove ..

/-- What is in view stays so when a move is added: the line that changes is open, and the view does
not show it. -/
theorem extends_addMove (hgrows : f.Grows) (san : String) (span : Span) (wellFormed : Bool) :
    f.view.Extends (f.addMove san span wellFormed).view := by
  obtain ⟨line, hline, -⟩ := hgrows.frames.head.line
  apply view_extends
  · intro v x hv hx
    refine ⟨hv, ?_⟩
    rw [line?_addMove hline, if_neg (not_mem_opened hv), hx]
  · intro m x hm hx
    have hlt := Arena.lt_of_move? hx
    refine ⟨?_, ?_⟩
    · intro hmem
      -- The new move is hidden too, so its place was free before.
      obtain heq | hmem := List.mem_cons.1 hmem
      · cases heq
        omega
      · exact hm (List.mem_cons_of_mem _ hmem)
    · rw [move?_addMove, if_neg (by omega), hx]

/-- The move before a new one comes into view. -/
theorem view_move?_addMove (hgrows : f.Grows) {i : Nat} (hi : f.frame.last = some i)
    (san : String) (span : Span) (wellFormed : Bool) :
    (f.addMove san span wellFormed).view.move? i = f.arena.move? i := by
  obtain ⟨node, hnode, -⟩ := hgrows.frames.head.last hi
  have hlt := Arena.lt_of_move? hnode
  have hfree : some i ∉ (f.addMove san span wellFormed).lasts := by
    intro hmem
    obtain heq | hmem := List.mem_cons.1 hmem
    · cases heq
      omega
    · obtain ⟨other, hother, heq⟩ := List.mem_map.1 hmem
      exact ((hgrows.apart hother).2 heq).2 hi
  rw [view_move? hfree, move?_addMove, if_neg (by omega)]

/-- The new move is drawn as the last one, and the one before it comes into view. -/
theorem Draws.addMove (h : f.Draws r) (hgrows : f.Grows) (san : String) (span : Span)
    (wellFormed : Bool) :
    (f.addMove san span wellFormed).Draws
      { r with line := r.line.addMove san span r.number wellFormed, number := none } where
  number := rfl
  opened := h.opened.trans Array.size_modify.symm
  lines := by
    obtain ⟨line, hline, -⟩ := hgrows.frames.head.line
    have hextends := extends_addMove hgrows san span wellFormed
    refine h.lines.update hextends ?_ rfl ?_
    · -- The lines further out and their last moves keep their entries.
      intro other hother
      obtain ⟨hlt, hlast⟩ := hgrows.apart hother
      refine ⟨?_, ?_⟩
      · rw [line?_addMove hline, if_neg (Nat.ne_of_lt hlt)]
      · intro i hi
        rw [move?_addMove, if_neg (Nat.ne_of_lt (hlast hi).1)]
    · -- On the innermost line the last move is settled and the new one takes its place.
      intro parent hdrawn
      obtain ⟨hid, hdepth', hstart', hcomment', hbranches⟩ := r.line.settle_eq
      obtain ⟨node, hnode, hparent, hstart, hcomment, hdepth, hcount, hmoves, hstrays⟩ :=
        hdrawn.settle hextends fun i hi => view_move?_addMove hgrows hi san span wellFormed
      -- Both count up to the same bound, so the new moves have one number.
      have hcount' : oneMore r.line.count = oneMore f.count := by
        rw [hcount, oneMore_min, Filler.count, hnode]
        rfl
      cases hline.symm.trans hnode
      refine ⟨hid.trans hdrawn.place, ⟨_, (line?_addMove hline ..).trans (if_pos rfl), hparent,
        hstart.trans hstart'.symm, hcomment.trans hcomment'.symm, hdepth.trans hdepth'.symm, ?_,
        line.moves.toList, Array.toList_push, hmoves⟩, .inr ⟨_, f.arena.moves.size, #[], rfl, rfl,
        ?_, ?_⟩, ?_, hstrays⟩
      · show oneMore r.line.count = _
        rw [hcount, oneMore_min, Array.size_push]
        rfl
      · rw [move?_addMove, if_pos rfl, ← hcount', ← h.number]
        rfl
      · rw [OpenLine.addMove, hbranches]
        rfl
      · rw [OpenLine.addMove, hbranches]
        trivial

/-! ### Entering and leaving variations -/

/-- A new line is the last of its table. -/
theorem line?_enter (f : Filler) (span : Span) (v : Nat) : (f.enter span).arena.line? v =
    if v = f.arena.lines.size then
      some ⟨f.frame.last, #[], ⟨span.stop, span.stop⟩, none, oneMore f.outer.length⟩
    else f.arena.line? v :=
  Arena.line?_addLine ..

/-- A new line is listed by the last move of the line around it. -/
theorem move?_enter (f : Filler) (span : Span) (m : Nat) : (f.enter span).arena.move? m =
    if f.frame.last = some m then
      (f.arena.move? m).map fun node =>
        { node with variations := node.variations.push f.arena.lines.size }
    else f.arena.move? m :=
  Arena.move?_addLine ..

/-- What is in view stays so when a line is opened: the new line and the last move of the line
around it are both hidden. -/
theorem extends_enter (f : Filler) (span : Span) : f.view.Extends (f.enter span).view := by
  apply view_extends
  · intro v x hv hx
    have hnew : v ≠ f.arena.lines.size := Nat.ne_of_lt (Arena.lt_of_line? hx)
    refine ⟨?_, (line?_enter ..).trans ((if_neg hnew).trans hx)⟩
    intro hmem
    exact (List.mem_cons.1 hmem).elim hnew hv
  · intro m x hm hx
    refine ⟨?_, (move?_enter ..).trans ((if_neg (not_mem_lasts hm)).trans hx)⟩
    intro hmem
    exact (List.mem_cons.1 hmem).elim nofun hm

/-- A variation is drawn as a frame of its own, inside the one that was open. -/
theorem Draws.enter (h : f.Draws r) (hgrows : f.Grows) (span : Span) :
    (f.enter span).Draws (r.enter span) := by
  obtain ⟨problems, henter⟩ := r.exists_enter_eq span
  rw [henter]
  obtain ⟨current, hcurrent, hlength⟩ := hgrows.frames.head.line
  have hlt := Arena.lt_of_line? hcurrent
  have hextends := extends_enter f span
  refine ⟨⟨?_, ?_⟩, rfl, ?_⟩
  · -- The new line has no moves yet, and is one deeper than the line around it.
    refine ⟨h.opened, ⟨_, (line?_enter ..).trans (if_pos rfl), rfl, rfl, rfl, ?_, rfl, [], rfl, ?_⟩,
      .inl ⟨rfl, rfl⟩, ?_, ?_⟩
    · obtain ⟨parent, hdrawn⟩ := h.lines.head
      obtain ⟨node, hnode, -, -, -, hdepth, -⟩ := hdrawn.line
      cases hcurrent.symm.trans hnode
      show oneMore f.outer.length = oneMore r.line.depth
      rw [← hdepth, hlength, oneMore_min]
    · rfl
    · trivial
    · trivial
  · -- The line around it has one alternative more, noted at its last move.
    refine h.lines.update hextends ?_ rfl ?_
    · intro other hother
      obtain ⟨hbefore, hlast⟩ := hgrows.apart hother
      refine ⟨(line?_enter ..).trans (if_neg (by omega)), ?_⟩
      intro i hi
      exact (move?_enter ..).trans (if_neg (hlast hi).2)
    · intro parent hdrawn
      obtain ⟨node, hnode, hrest⟩ := hdrawn.line
      obtain ⟨hparent, hstart, hcomment, hdepth, hcount, settled, hsettled, hmoves⟩ := hrest
      refine ⟨hdrawn.place, ⟨node, ?_, hparent, hstart, hcomment, hdepth, hcount, settled,
        hsettled, hmoves.mono hextends⟩, ?_, hdrawn.branches.mono hextends,
        hdrawn.strays.mono hextends⟩
      · rw [line?_enter, if_neg (Nat.ne_of_lt hlt), hnode]
      · refine hdrawn.last.imp (fun hnone => hnone) ?_
        rintro ⟨m, i, ids, hm, hi, hmove, hids⟩
        refine ⟨m, i, ids.push f.arena.lines.size, hm, hi, ?_, ?_⟩
        · rw [move?_enter, if_pos hi, hmove]
          rfl
        · rw [Array.toList_push, hids, List.append_nil]
          rfl
  · rw [h.opened]
    exact (Arena.size_lines_addLine ..).symm

variable {frame : Frame} {frames : List Frame}

/-- Only the line that is left changes. -/
theorem line?_leave (f : Filler) (stop : Nat) (frame : Frame) (frames : List Frame) (v : Nat) :
    (f.leave stop frame frames).arena.line? v =
      if f.frame.line = v then
        (f.arena.line? v).map fun line => { line with span := ⟨line.span.start, stop⟩ }
      else f.arena.line? v :=
  Arena.line?_updateLine ..

/-- The lines that stay open lie apart from the one that is left. -/
theorem line?_leave_of_mem (hgrows : f.Grows) (houter : f.outer = frame :: frames) (stop : Nat)
    {other : Frame} (hother : other ∈ frame :: frames) :
    (f.leave stop frame frames).arena.line? other.line = f.arena.line? other.line := by
  have hlt := (hgrows.apart (houter ▸ hother)).1
  rw [line?_leave, if_neg (by omega)]

/-- What is in view stays so when a line is left: one frame less is open. -/
theorem extends_leave (houter : f.outer = frame :: frames) (stop : Nat) :
    f.view.Extends (f.leave stop frame frames).view := by
  have hopened {v : Nat} (hv : v ∈ (f.leave stop frame frames).opened) : v ∈ f.opened := by
    rw [Filler.opened, houter]
    exact List.mem_cons_of_mem _ hv
  have hlasts {m : Option Nat} (hm : m ∈ (f.leave stop frame frames).lasts) : m ∈ f.lasts := by
    rw [Filler.lasts, houter]
    exact List.mem_cons_of_mem _ hm
  apply view_extends
  · intro v x hv hx
    refine ⟨fun hmem => hv (hopened hmem), ?_⟩
    rw [line?_leave, if_neg (Ne.symm (not_mem_opened hv)), hx]
  · intro m x hm hx
    exact ⟨fun hmem => hm (hlasts hmem), hx⟩

/-- The line that is left and its last move are finished, and shown from now on. -/
theorem draws_close_leave (hgrows : f.Grows) (houter : f.outer = frame :: frames) (stop : Nat)
    {l : OpenLine} (h : l.DrawnBy f.arena f.view frame.last [] f.frame) :
    (f.leave stop frame frames).view.Draws frame.last (l.close stop) := by
  -- Both were hidden before. The lines further out lie apart from them.
  apply h.close (extends_leave houter stop)
  · intro i hi
    apply view_move?
    intro hmem
    obtain ⟨other, hother, hlast⟩ := List.mem_map.1 hmem
    exact ((hgrows.apart (houter ▸ hother)).2 hlast).2 hi
  · intro node hnode
    have hfree : f.frame.line ∉ (f.leave stop frame frames).opened := by
      intro hmem
      obtain ⟨other, hother, hline⟩ := List.mem_map.1 hmem
      have hlt := (hgrows.apart (houter ▸ hother)).1
      omega
    refine (if_neg hfree).trans ?_
    rw [line?_leave, if_pos rfl, hnode]
    rfl

/-- A line that is closed comes into view, as a branch of the line around it. -/
theorem Draws.leave (h : f.Draws r) (hgrows : f.Grows) (stop : Nat) {parent : OpenLine}
    {lines : List OpenLine} (houter : r.outer = parent :: lines) :
    ∃ frame frames, f.outer = frame :: frames ∧
      (f.leave stop frame frames).Draws
        { r with
          line := parent.addBranch (r.line.close stop), outer := lines, number := none } := by
  have hlines := h.lines
  rw [houter] at hlines
  cases hframes : f.outer with
  | nil =>
    rw [hframes] at hlines
    exact hlines.elim
  | cons frame frames =>
    rw [hframes] at hlines
    have hextends := extends_leave hframes stop
    have hclosed := draws_close_leave hgrows hframes stop hlines.1
    have hid : (r.line.close stop).id = f.frame.line :=
      r.line.settle_eq.1.trans hlines.1.place
    refine ⟨frame, frames, rfl, ?_, rfl, ?_⟩
    · -- Of the line around it only the list of branches grows, by the one that is closed.
      refine hlines.2.update hextends ?_ rfl ?_
      · intro other hother
        exact ⟨line?_leave_of_mem hgrows hframes stop (List.mem_cons_of_mem _ hother),
          fun _ _ => rfl⟩
      · intro around hdrawn
        obtain ⟨node, hnode, hrest⟩ := hdrawn.line
        obtain ⟨hparent, hstart, hcomment, hdepth, hcount, settled, hsettled, hmoves⟩ := hrest
        refine ⟨hdrawn.place, ⟨node, ?_, hparent, hstart, hcomment, hdepth, hcount, settled,
          hsettled, hmoves.mono hextends⟩, ?_, ?_, hdrawn.strays.mono hextends⟩
        · exact (line?_leave_of_mem hgrows hframes stop List.mem_cons_self).trans hnode
        · refine hdrawn.last.imp (fun hnone => hnone) ?_
          rintro ⟨m, i, ids, hm, hi, hmove, hids⟩
          refine ⟨m, i, ids, hm, hi, hmove, ?_⟩
          rw [hids, OpenLine.addBranch, List.reverse_cons, List.map_append, List.append_nil,
            ← hid]
          rfl
        · -- The alternatives shown before are still shown, and the closed one is behind them.
          rw [OpenLine.addBranch, List.reverse_cons]
          apply View.drawsLines_append (hdrawn.branches.mono hextends)
          rw [View.DrawsLines]
          exact ⟨hclosed, by rw [View.DrawsLines]; trivial⟩
    · exact h.opened.trans (Arena.size_lines_updateLine ..).symm

/-! ### Runs -/

/-- Nothing is drawn at the start but the main line. -/
theorem draws_start (s : Span) : (start s).Draws (Reader.start s.start) where
  lines := by
    refine ⟨rfl, ⟨_, rfl, rfl, rfl, rfl, rfl, rfl, [], rfl, ?_⟩, .inl ⟨rfl, rfl⟩, ?_, ?_⟩
    · rfl
    · trivial
    · trivial
  number := rfl
  opened := rfl

/-- There is a line around the open one if and only if there is a frame around its frame. -/
theorem Draws.isEmpty_outer (h : f.Draws r) : f.outer.isEmpty = r.outer.isEmpty := by
  have hlines := h.lines
  cases hr : r.outer with
  | nil =>
    cases hf : f.outer with
    | nil => rfl
    | cons =>
      rw [hr, hf] at hlines
      exact hlines.elim
  | cons =>
    cases hf : f.outer with
    | nil =>
      rw [hr, hf] at hlines
      exact hlines.elim
    | cons => rfl

/-- Of one lexeme both take one step, and the tables go on drawing the score. Outside all
parentheses a marker and a closing parenthesis end both. -/
theorem Draws.step (h : f.Draws r) (hgrows : f.Grows) (strict : Bool) (stop : Nat)
    (lexeme : Lexeme) (rest : List Lexeme) :
    (∃ g r', f.step? lexeme = some g ∧
      r.run strict stop (lexeme :: rest) = r'.run strict stop rest ∧ g.Draws r') ∨
    (r.outer = [] ∧ f.step? lexeme = none ∧
      (r.run strict stop (lexeme :: rest)).mainLine = r.line.close stop) := by
  cases lexeme with
  | comment body text => exact .inl ⟨_, _, rfl, rfl, h.comment hgrows text⟩
  | openEnd problem => exact .inl ⟨_, _, rfl, rfl, h.note problem⟩
  | token token span =>
    cases token with
    | number n => exact .inl ⟨_, _, rfl, rfl, h.lines, rfl, h.opened⟩
    | san text wellFormed =>
      have hadd := h.addMove hgrows text span wellFormed
      cases wellFormed with
      | true => exact .inl ⟨_, _, rfl, rfl, hadd⟩
      | false => exact .inl ⟨_, _, rfl, rfl, hadd.note _⟩
    | nag nag =>
      cases hnag : r.line.addNag? nag with
      | none =>
        exact .inl ⟨_, _, rfl, Reader.run_of_step (by rw [Reader.step?, hnag]) ..,
          (h.addNag_of_none hnag).note _⟩
      | some line =>
        exact .inl ⟨_, _, rfl, Reader.run_of_step (by rw [Reader.step?, hnag]) ..,
          h.addNag hgrows hnag⟩
    | badNag | unexpected => exact .inl ⟨_, _, rfl, rfl, h.note _⟩
    | opening => exact .inl ⟨_, _, rfl, rfl, h.enter hgrows span⟩
    | closing =>
      cases houter : r.outer with
      | nil =>
        have hsame := h.isEmpty_outer
        rw [houter] at hsame
        refine .inr ⟨rfl, by rw [step?, List.isEmpty_iff.1 hsame], ?_⟩
        rw [Reader.run_of_halt (by rw [Reader.step?, houter])]
        show Reader.closeAll r.line stop r.outer = _
        rw [houter]
        rfl
      | cons parent outer =>
        obtain ⟨frame, frames, hframes, hleave⟩ := h.leave hgrows span.start houter
        exact .inl ⟨_, _, by rw [step?, hframes],
          Reader.run_of_step (by rw [Reader.step?, houter]) .., hleave⟩
    | marker outcome | badMarker =>
      have hsame := h.isEmpty_outer
      cases houter : r.outer.isEmpty with
      | true =>
        rw [houter] at hsame
        have hnone := List.isEmpty_iff.1 houter
        exact .inr ⟨hnone, if_pos hsame,
          Reader.mainLine_of_ending hnone (.inr ⟨_, rest, rfl, rfl⟩)⟩
      | false =>
        rw [houter] at hsame
        have hinside : ¬ r.outer.isEmpty = true := by simp [houter]
        exact .inl ⟨_, _, if_neg (by simp [hsame]),
          Reader.run_of_step (by simp only [Reader.step?, if_neg hinside]) ..,
          h.note (.fault .markerInVariation span)⟩

/-- Both passes end with the same lines open, which the score closes. If there are any, a
parenthesis has no partner. -/
theorem Draws.exists_run (h : f.Draws r) (hgrows : f.Grows) (strict : Bool) (stop : Nat)
    (lexemes : List Lexeme) :
    ∃ r', (f.run lexemes).Draws r' ∧
      (r.run strict stop lexemes).mainLine = Reader.closeAll r'.line stop r'.outer ∧
      (r'.outer = [] ∨
        ∃ problem ∈ (r.run strict stop lexemes).problems, problem.isCritical = true) := by
  induction lexemes generalizing f r with
  | nil =>
    refine ⟨r, h, ?_, ?_⟩
    · rw [Reader.run_nil, Reader.finishOpen_mainLine]
    cases houter : r.outer with
    | nil => exact .inl rfl
    | cons parent outer =>
      refine .inr ⟨.fault .unmatchedOpenParen ⟨r.line.start - 1, r.line.start⟩, ?_, rfl⟩
      rw [Reader.run_nil, Reader.finishOpen, houter]
      exact List.mem_of_getElem? (i := r.problems.size) (by simp [Reader.note, Reader.finish])
  | cons lexeme rest ih =>
    obtain ⟨g, r', hstep, hread, hdraws⟩ | ⟨houter, hstep, hline⟩ :=
      h.step hgrows strict stop lexeme rest
    · rw [hread, Filler.run, hstep]
      exact ih hdraws (hgrows.step hstep)
    · refine ⟨r, ?_, ?_, .inl houter⟩
      · rw [Filler.run, hstep]
        exact h
      · rw [hline, houter]
        rfl

/-- Unless a parenthesis has no partner, both passes end with the main line alone, and have come to
the same there. -/
theorem Draws.run {strict : Bool} {stop : Nat} {lexemes : List Lexeme} (h : f.Draws r)
    (hgrows : f.Grows)
    (hmatched : ∀ problem ∈ (r.run strict stop lexemes).problems, problem.isCritical = false) :
    ∃ r', (f.run lexemes).Draws r' ∧ r'.outer = [] ∧
      (r.run strict stop lexemes).mainLine = r'.line.close stop := by
  obtain ⟨r', hdraws, hline, houter | ⟨problem, hmem, hcritical⟩⟩ :=
    h.exists_run hgrows strict stop lexemes
  · rw [houter] at hline
    exact ⟨r', hdraws, houter, hline⟩
  · rw [hmatched problem hmem] at hcritical
    cases hcritical

end Filler

/-! ## The statement -/

/-- All of two tables. -/
def Arena.view (a : Arena) : View :=
  ⟨a.line?, a.move?⟩

/-- At the end all of the arena is in view. -/
theorem Filler.view_extends_view (f : Filler) : f.view.Extends f.arena.view where
  line := by
    intro v x hx
    simp only [view] at hx
    split at hx
    · cases hx
    · exact hx
  move := by
    intro m x hx
    simp only [view] at hx
    split at hx
    · cases hx
    · exact hx

/-- Movetext in which no parenthesis lacks its partner fills the two tables with one tree. The
entries name each other as those of a tree do (`Arena.IsTree`), with numbers and depths counted in
32 bits, the lines and moves lie nested in the text (`Arena.Nested`), and followed from line 0 the
tables draw the main line of the score. -/
theorem Text.arena_of_matched (t : Text) (strict : Bool) (s : Span) (hstart : s.start ≤ s.stop)
    (hmatched : ∀ problem ∈ (t.score strict s).problems, problem.isCritical = false) :
    (t.arena s).IsTree ∧ (t.arena s).Nested t s ∧
      (t.score strict s).mainLine.id = 0 ∧
      (t.arena s).view.Draws none (t.score strict s).mainLine := by
  obtain ⟨pos, hlies, hpos⟩ :=
    (Filler.lies_start t s).run (t.laidOut_lexemes s) hstart
  -- The invariants of both passes hold at their ends, where no line is left open.
  obtain ⟨r, hdraws, houter, hline⟩ :=
    (Filler.draws_start s).run (Filler.grows_start s) hmatched
  have hframes : ((Filler.start s).run (t.lexemes s)).outer = [] := by
    rw [← List.isEmpty_iff, hdraws.isEmpty_outer, houter]
    rfl
  have harena : t.arena s = ((Filler.start s).run (t.lexemes s)).arena := by
    rw [Text.arena, Filler.finish, hframes]
    rfl
  have hnested := hlies.nested hframes hpos
  have hdrawn := hdraws.lines
  rw [houter, hframes] at hdrawn
  have hmain : ((Filler.start s).run (t.lexemes s)).frame.line = 0 := by
    have hfits := hlies.grows.frames
    rw [hframes] at hfits
    exact hfits.2
  rw [harena]
  refine ⟨hlies.grows.tree, hnested, ?_, ?_⟩
  · rw [Text.score, hline]
    -- What is open at the end is the main line alone, so closing it draws all there is.
    exact r.line.settle_eq.1.trans (hdrawn.place.trans hmain)
  · rw [Text.score, hline]
    apply OpenLine.DrawnBy.close hdrawn (Filler.view_extends_view _) fun _ _ => rfl
    intro node hnode
    obtain ⟨line, hline, hspan⟩ := hnested.main
    rw [hmain] at hnode ⊢
    cases hline.symm.trans hnode
    rw [hspan]
    exact hline.trans (by rw [← hspan])

/-- The movetext `(d4) e4 (d4 (c4)) $1 (c4) e5 *`. -/
def Arena.sample : Text :=
  .ofBytes ⟨#[0x28, 0x64, 0x34, 0x29, 0x20, 0x65, 0x34, 0x20, 0x28, 0x64, 0x34, 0x20, 0x28, 0x63,
    0x34, 0x29, 0x29, 0x20, 0x24, 0x31, 0x20, 0x28, 0x63, 0x34, 0x29, 0x20, 0x65, 0x35, 0x20,
    0x2a]⟩

/-- Its first variation branches from no move, and its moves are `d4`, `e4`, `d4`, `c4`, `c4` and
`e5`. -/
theorem Text.arena_of_matched_of_stray :
    (∀ problem ∈ (Arena.sample.score true ⟨0, 30⟩).problems, problem.isCritical = false) ∧
      ((Arena.sample.arena ⟨0, 30⟩).lines.toList.map fun line =>
        (line.parent, line.moves.toList, line.span)) =
        [(none, [1, 5], ⟨0, 30⟩), (none, [0], ⟨1, 3⟩), (some 1, [2], ⟨9, 16⟩),
          (some 2, [3], ⟨13, 15⟩), (some 1, [4], ⟨22, 24⟩)] ∧
      (Arena.sample.arena ⟨0, 30⟩).IsTree := by
  have hmatched : ∀ problem ∈ (Arena.sample.score true ⟨0, 30⟩).problems,
      problem.isCritical = false := by
    decide +kernel
  exact ⟨hmatched, by decide +kernel,
    (Text.arena_of_matched Arena.sample true ⟨0, 30⟩ (by decide) hmatched).1⟩

end Scorebook
