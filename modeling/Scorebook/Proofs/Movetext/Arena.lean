import Scorebook.Proofs.Movetext.Lexemes
import Scorebook.Movetext.Score

/-!
# A score in two tables

The tree of a game can be kept in two tables, one of lines and one of moves, whose entries name each
other by their places in the tables. A line names its moves and the move it branches from, a move
names its line and the lines that branch from it. The tables are filled in one pass over the lexemes
(`Filler.run`). Of each line that is not closed yet the pass only knows its place and that of its
last move.

Nothing in the tables themselves says that they describe a tree. `Arena.IsTree` says so, every step
of the pass keeps it (`Filler.Grows.step`), and so it holds of the tables of any movetext.
-/

namespace Scorebook

/-! ## The tables -/

/-- A line in the table of lines. -/
structure LineNode where
  /-- The move this is an alternative to. -/
  parent : Option Nat
  moves : Array Nat
  span : Span
  /-- The comment before the first move. -/
  comment : Option String
  depth : Nat

/-- A move in the table of moves. -/
structure MoveNode where
  san : String
  span : Span
  /-- The position in the line, from one, in 32 bits. -/
  number : Nat
  indicated : Option Nat
  comment : Option String
  nags : Array Nag
  wellFormed : Bool
  variations : Array Nat
  /-- The line of the move. -/
  parent : Nat

/-- The two tables. The main line is line 0. -/
structure Arena where
  lines : Array LineNode
  moves : Array MoveNode

namespace Arena

/-- The line in this place. -/
def line? (a : Arena) (v : Nat) : Option LineNode :=
  a.lines[v]?

/-- The move in this place. -/
def move? (a : Arena) (m : Nat) : Option MoveNode :=
  a.moves[m]?

/-- Appends a line. -/
def pushLine (a : Arena) (x : LineNode) : Arena :=
  { a with lines := a.lines.push x }

/-- Appends a move. -/
def pushMove (a : Arena) (x : MoveNode) : Arena :=
  { a with moves := a.moves.push x }

/-- Changes one line. -/
def updateLine (a : Arena) (v : Nat) (change : LineNode → LineNode) : Arena :=
  { a with lines := a.lines.modify v change }

/-- Changes one move. -/
def updateMove (a : Arena) (m : Nat) (change : MoveNode → MoveNode) : Arena :=
  { a with moves := a.moves.modify m change }

/-- Appends a move to the table and to its line. -/
def addMove (a : Arena) (node : MoveNode) : Arena :=
  (a.updateLine node.parent fun line =>
    { line with moves := line.moves.push a.moves.size }).pushMove node

/-- Appends a line to the table and to the move it branches from. -/
def addLine (a : Arena) (line : LineNode) : Arena :=
  match line.parent with
  | some m =>
    (a.pushLine line).updateMove m fun node =>
      { node with variations := node.variations.push a.lines.size }
  | none => a.pushLine line

section Lookup

variable (a : Arena) (i j : Nat) (x : LineNode) (y : MoveNode) (f : LineNode → LineNode)
  (g : MoveNode → MoveNode)

/-- A line that is pushed is the last one. -/
@[simp, grind =] theorem line?_pushLine :
    (a.pushLine x).line? i = if i = a.lines.size then some x else a.line? i :=
  Array.getElem?_push

/-- Only the line that is updated changes. -/
@[simp, grind =] theorem line?_updateLine :
    (a.updateLine i f).line? j = if i = j then (a.line? j).map f else a.line? j :=
  Array.getElem?_modify

/-- A move that is pushed is the last one. -/
@[simp, grind =] theorem move?_pushMove :
    (a.pushMove y).move? i = if i = a.moves.size then some y else a.move? i :=
  Array.getElem?_push

/-- Only the move that is updated changes. -/
@[simp, grind =] theorem move?_updateMove :
    (a.updateMove i g).move? j = if i = j then (a.move? j).map g else a.move? j :=
  Array.getElem?_modify

@[simp, grind =] theorem line?_pushMove : (a.pushMove y).line? i = a.line? i := rfl

@[simp, grind =] theorem line?_updateMove : (a.updateMove i g).line? j = a.line? j := rfl

@[simp, grind =] theorem move?_pushLine : (a.pushLine x).move? i = a.move? i := rfl

@[simp, grind =] theorem size_lines_pushLine : (a.pushLine x).lines.size = a.lines.size + 1 :=
  Array.size_push x

@[simp, grind =] theorem size_lines_updateLine :
    (a.updateLine i f).lines.size = a.lines.size :=
  Array.size_modify

variable {a i x y}

/-- A line is looked up by a position in the arena. -/
@[grind →] theorem lt_of_line? (h : a.line? i = some x) : i < a.lines.size :=
  (Array.getElem?_eq_some_iff.1 h).1

/-- So is a move. -/
@[grind →] theorem lt_of_move? (h : a.move? i = some y) : i < a.moves.size :=
  (Array.getElem?_eq_some_iff.1 h).1

/-- Each position of the arena has its line. -/
theorem exists_line? (h : i < a.lines.size) : ∃ x, a.line? i = some x :=
  ⟨_, Array.getElem?_eq_getElem h⟩

end Lookup

end Arena

/-! ## The pass -/

/-- Where one line is being filled in. -/
structure Frame where
  line : Nat
  /-- The move annotations attach to. -/
  last : Option Nat

/-- The state of the pass that fills the tables. -/
structure Filler where
  arena : Arena
  frame : Frame
  /-- The lines around the current one, the innermost first. -/
  outer : List Frame
  number : Option Nat

namespace Filler

/-- The tables before the first lexeme. -/
def start (s : Span) : Filler :=
  ⟨⟨#[⟨none, #[], s, none, 0⟩], #[]⟩, ⟨0, none⟩, [], none⟩

/-- Adds a comment to the last move of the current line, or in front of the line. -/
def comment (f : Filler) (text : String) : Filler :=
  if text.isEmpty then f
  else
    match f.frame.last with
    | some m =>
      { f with arena := f.arena.updateMove m fun node =>
          { node with comment := joinComment node.comment text } }
    | none =>
      { f with arena := f.arena.updateLine f.frame.line fun line =>
          { line with comment := joinComment line.comment text } }

/-- The number of moves in the current line. -/
def count (f : Filler) : Nat :=
  ((f.arena.line? f.frame.line).map (·.moves.size)).getD 0

/-- Adds a move to the current line. -/
def addMove (f : Filler) (san : String) (span : Span) (wellFormed : Bool) : Filler :=
  { f with
    arena := f.arena.addMove
      ⟨san, span, oneMore f.count, f.number, none, #[], wellFormed, #[], f.frame.line⟩
    frame := { f.frame with last := some f.arena.moves.size }
    number := none }

/-- Adds a glyph to the last move of the current line. -/
def addNag (f : Filler) (nag : Nag) : Filler :=
  match f.frame.last with
  | some m =>
    { f with arena := f.arena.updateMove m fun node => { node with nags := node.nags.push nag } }
  | none => f

/-- Enters a variation behind its parenthesis. -/
def enter (f : Filler) (span : Span) : Filler :=
  ⟨f.arena.addLine ⟨f.frame.last, #[], ⟨span.stop, span.stop⟩, none, oneMore f.outer.length⟩,
    ⟨f.arena.lines.size, none⟩, f.frame :: f.outer, none⟩

/-- Closes the current variation at `stop` and goes on in the line `parent`. -/
def leave (f : Filler) (stop : Nat) (parent : Frame) (outer : List Frame) : Filler :=
  ⟨f.arena.updateLine f.frame.line fun line => { line with span := ⟨line.span.start, stop⟩ },
    parent, outer, none⟩

/-- Takes in one lexeme. There is no next state where the pass ends. -/
def step? (f : Filler) : Lexeme → Option Filler
  | .comment _ text => some (f.comment text)
  | .openEnd _ => some f
  | .token token span =>
    match token with
    | .number n => some { f with number := some n }
    | .san text wellFormed => some (f.addMove text span wellFormed)
    | .nag nag => some (f.addNag nag)
    | .badNag | .unexpected => some f
    | .opening => some (f.enter span)
    | .closing =>
      match f.outer with
      | [] => none
      | parent :: outer => some (f.leave span.start parent outer)
    | .marker _ | .badMarker => if f.outer.isEmpty then none else some f

/-- Takes in lexemes until the pass ends. -/
def run (f : Filler) : List Lexeme → Filler
  | [] => f
  | lexeme :: rest =>
    match f.step? lexeme with
    | some next => next.run rest
    | none => f

/-- Lets every variation that is still open reach to the end of the text. -/
def finish (f : Filler) (stop : Nat) : Arena :=
  (f.frame :: f.outer).dropLast.foldl
    (fun a frame => a.updateLine frame.line fun line =>
      { line with span := ⟨line.span.start, stop⟩ })
    f.arena

end Filler

/-- The tables of the movetext in a range. -/
def Text.arena (t : Text) (s : Span) : Arena :=
  ((Filler.start s).run (t.lexemes s)).finish s.stop

/-! ## What a tree is in the tables -/

/-- The tables describe a tree. -/
structure Arena.IsTree (a : Arena) : Prop where
  /-- Line 0 is the main line. -/
  main : ∃ line, a.line? 0 = some line ∧ line.parent = none ∧ line.depth = 0
  /-- Every move belongs to a line. -/
  owned : ∀ {m node}, a.move? m = some node → node.parent < a.lines.size
  /-- A move stands once in the list of its own line, and in no other list. -/
  listed : ∀ {v line}, a.line? v = some line → ∀ m,
    line.moves.count m = if (a.move? m).map MoveNode.parent = some v then 1 else 0
  /-- The number of a move is its place in the list of its line, counted from one in 32 bits. -/
  numbered : ∀ {v line}, a.line? v = some line → ∀ {i m node}, line.moves[i]? = some m →
    a.move? m = some node → node.number = oneMore i
  /-- The moves of a line are listed in the order of the table. -/
  sorted : ∀ {v line}, a.line? v = some line → line.moves.toList.Pairwise (· < ·)
  /-- A line stands once in the list of the move it branches from, and in no other list. -/
  branching : ∀ {m node}, a.move? m = some node → ∀ v,
    node.variations.count v = if (a.line? v).bind LineNode.parent = some m then 1 else 0
  /-- A line that branches from a move is one deeper than the line of the move, in 32 bits, and
  comes after it. -/
  branched : ∀ {v line m}, a.line? v = some line → line.parent = some m →
    ∃ node outer, a.move? m = some node ∧ a.line? node.parent = some outer ∧
      line.depth = oneMore outer.depth ∧ node.parent < v

namespace Arena.IsTree

variable {a : Arena} {v m : Nat} {line : LineNode}

/-- The list of a line holds the moves of the line. -/
theorem mem_moves (h : a.IsTree) (hline : a.line? v = some line) :
    m ∈ line.moves ↔ ∃ node, a.move? m = some node ∧ node.parent = v := by
  rw [← Array.count_pos_iff, h.listed hline, ← Option.map_eq_some_iff]
  split
  · next hmap => simp [hmap]
  · next hmap => simp [hmap]

/-- The moves of a line are in the arena. -/
theorem lt_of_mem_moves (h : a.IsTree) (hline : a.line? v = some line) (hm : m ∈ line.moves) :
    m < a.moves.size := by
  obtain ⟨node, hnode, -⟩ := (h.mem_moves hline).1 hm
  exact lt_of_move? hnode

/-- No line has a move that is not in the table yet. -/
theorem count_size (h : a.IsTree) (hline : a.line? v = some line) :
    line.moves.count a.moves.size = 0 :=
  Array.count_eq_zero.2 fun hmem => Nat.lt_irrefl _ (h.lt_of_mem_moves hline hmem)

end Arena.IsTree

/-! ## Open lines -/

/-- The frame is that of a line with so many lines around it, and its last move is one of the line.
-/
structure Frame.Fits (a : Arena) (depth : Nat) (frame : Frame) : Prop where
  line : ∃ line, a.line? frame.line = some line ∧ line.depth = min depth lastCount
  last : ∀ {m}, frame.last = some m → ∃ node, a.move? m = some node ∧ node.parent = frame.line

/-- The frames are those of nested lines with the main line around all of them. -/
def Arena.Fits (a : Arena) (frame : Frame) : List Frame → Prop
  | [] => frame.Fits a 0 ∧ frame.line = 0
  | parent :: outer =>
    frame.Fits a (outer.length + 1) ∧ parent.line < frame.line ∧ a.Fits parent outer

/-- Later tables still have the lines and moves of earlier ones where they were. -/
structure Arena.Extends (a b : Arena) : Prop where
  lines : ∀ {v line}, a.line? v = some line →
    ∃ line', b.line? v = some line' ∧ line'.depth = line.depth
  moves : ∀ {m node}, a.move? m = some node →
    ∃ node', b.move? m = some node' ∧ node'.parent = node.parent

/-- A frame fits an arena that has more in it. -/
theorem Frame.Fits.extend {a b : Arena} {frame : Frame} {depth : Nat} (h : frame.Fits a depth)
    (hab : a.Extends b) : frame.Fits b depth where
  line := by
    obtain ⟨line, hline, hdepth⟩ := h.line
    obtain ⟨line', hline', hsame⟩ := hab.lines hline
    exact ⟨line', hline', hsame.trans hdepth⟩
  last := by
    intro m hlast
    obtain ⟨node, hnode, hparent⟩ := h.last hlast
    obtain ⟨node', hnode', hsame⟩ := hab.moves hnode
    exact ⟨node', hnode', hsame.trans hparent⟩

namespace Arena

variable {a b : Arena} {frame : Frame} {outer : List Frame}

/-- The innermost frame fits with as many frames around it. -/
theorem Fits.head (h : a.Fits frame outer) : frame.Fits a outer.length := by
  cases outer with
  | nil => exact h.1
  | cons parent outer => exact h.1

/-- The current line is the one opened last. -/
theorem Fits.lt_line (h : a.Fits frame outer) : ∀ other ∈ outer, other.line < frame.line := by
  induction outer generalizing frame with
  | nil => nofun
  | cons parent outer ih =>
    intro other hother
    obtain rfl | hother := List.mem_cons.1 hother
    · exact h.2.1
    · exact Nat.lt_trans (ih h.2.2 other hother) h.2.1

/-- The last move of any line around the current one is a move of that line. -/
theorem Fits.fits (h : a.Fits frame outer) {other : Frame} (hother : other ∈ outer) {m : Nat}
    (hm : other.last = some m) : ∃ node, a.move? m = some node ∧ node.parent = other.line := by
  induction outer generalizing frame with
  | nil => cases hother
  | cons parent outer ih =>
    obtain rfl | hother := List.mem_cons.1 hother
    · exact h.2.2.head.last hm
    · exact ih h.2.2 hother

/-- A frame may turn to another move of its line. -/
theorem Fits.with_last (h : a.Fits frame outer) {last : Option Nat}
    (hlast : ∀ {m}, last = some m → ∃ node, a.move? m = some node ∧ node.parent = frame.line) :
    a.Fits { frame with last } outer := by
  cases outer with
  | nil => exact ⟨⟨h.1.line, hlast⟩, h.2⟩
  | cons parent outer => exact ⟨⟨h.1.line, hlast⟩, h.2⟩

/-- Frames fit an arena that has more in it. -/
theorem Fits.extend (h : a.Fits frame outer) (hab : a.Extends b) : b.Fits frame outer := by
  induction outer generalizing frame with
  | nil => exact ⟨h.1.extend hab, h.2⟩
  | cons parent outer ih => exact ⟨h.1.extend hab, h.2.1, ih h.2.2⟩

end Arena

/-! ## Steps -/

/-- What ties a line into the tree. -/
def LineNode.links (x : LineNode) : Option Nat × Array Nat × Nat :=
  (x.parent, x.moves, x.depth)

/-- What ties a move into the tree. -/
def MoveNode.links (y : MoveNode) : Nat × Nat × Array Nat :=
  (y.number, y.parent, y.variations)

namespace Arena

variable {a b : Arena}

/-- The tables describe the same tree, apart from what is said about its lines and moves. -/
structure SameLinks (a b : Arena) : Prop where
  lines : ∀ v, (b.line? v).map LineNode.links = (a.line? v).map LineNode.links
  moves : ∀ m, (b.move? m).map MoveNode.links = (a.move? m).map MoveNode.links

/-- Updating a line but not its links keeps all links. -/
theorem sameLinks_updateLine (a : Arena) (v : Nat) {change : LineNode → LineNode}
    (h : ∀ line, (change line).links = line.links) : a.SameLinks (a.updateLine v change) where
  lines w := by
    rw [line?_updateLine]
    split
    · rw [Option.map_map]
      exact congrArg (Option.map · _) (funext h)
    · rfl
  moves _ := rfl

/-- Updating a move but not its links keeps all links. -/
theorem sameLinks_updateMove (a : Arena) (m : Nat) {change : MoveNode → MoveNode}
    (h : ∀ node, (change node).links = node.links) : a.SameLinks (a.updateMove m change) where
  lines _ := rfl
  moves n := by
    rw [move?_updateMove]
    split
    · rw [Option.map_map]
      exact congrArg (Option.map · _) (funext h)
    · rfl

namespace SameLinks

/-- Arenas have the same links either way round. -/
theorem symm (h : a.SameLinks b) : b.SameLinks a :=
  ⟨fun v => (h.lines v).symm, fun m => (h.moves m).symm⟩

/-- A line is in both arenas, with the same links. -/
theorem line (h : a.SameLinks b) {v : Nat} {line : LineNode} (hline : a.line? v = some line) :
    ∃ line', b.line? v = some line' ∧ line'.parent = line.parent ∧ line'.moves = line.moves ∧
      line'.depth = line.depth := by
  have hlinks := h.lines v
  rw [hline, Option.map_some, Option.map_eq_some_iff] at hlinks
  obtain ⟨line', hline', hlinks⟩ := hlinks
  simp only [LineNode.links, Prod.mk.injEq] at hlinks
  exact ⟨line', hline', hlinks⟩

/-- A move is in both arenas, with the same links. -/
theorem move (h : a.SameLinks b) {m : Nat} {node : MoveNode} (hnode : a.move? m = some node) :
    ∃ node', b.move? m = some node' ∧ node'.number = node.number ∧ node'.parent = node.parent ∧
      node'.variations = node.variations := by
  have hlinks := h.moves m
  rw [hnode, Option.map_some, Option.map_eq_some_iff] at hlinks
  obtain ⟨node', hnode', hlinks⟩ := hlinks
  simp only [MoveNode.links, Prod.mk.injEq] at hlinks
  exact ⟨node', hnode', hlinks⟩

/-- The line of a move is the same in both arenas. -/
theorem parent? (h : a.SameLinks b) (m : Nat) :
    (b.move? m).map MoveNode.parent = (a.move? m).map MoveNode.parent := by
  have hlinks := congrArg (Option.map fun links : Nat × Nat × Array Nat => links.2.1) (h.moves m)
  rwa [Option.map_map, Option.map_map] at hlinks

/-- An arena with the same links extends the other. -/
theorem toExtends (h : a.SameLinks b) : a.Extends b where
  lines hline := by
    obtain ⟨line', hline', -, -, hdepth⟩ := h.line hline
    exact ⟨line', hline', hdepth⟩
  moves hnode := by
    obtain ⟨node', hnode', -, hparent, -⟩ := h.move hnode
    exact ⟨node', hnode', hparent⟩

/-- Being a tree is a matter of the links. -/
theorem isTree (hab : a.SameLinks b) (h : a.IsTree) : b.IsTree where
  main := by
    obtain ⟨line, hline, hparent, hdepth⟩ := h.main
    obtain ⟨line', hline', hlinks⟩ := hab.line hline
    grind
  owned hnode := by
    obtain ⟨node', hnode', hlinks⟩ := hab.symm.move hnode
    obtain ⟨line, hline⟩ := exists_line? (h.owned hnode')
    obtain ⟨line', hline', -⟩ := hab.line hline
    grind
  listed {v line} hline m := by
    obtain ⟨line', hline', hlinks⟩ := hab.symm.line hline
    rw [← hlinks.2.1, h.listed hline', hab.parent?]
  numbered hline i m node hi hnode := by
    obtain ⟨line', hline', hlinks⟩ := hab.symm.line hline
    obtain ⟨node', hnode', hmove⟩ := hab.symm.move hnode
    rw [← hmove.1]
    exact h.numbered hline' (hlinks.2.1 ▸ hi) hnode'
  sorted hline := by
    obtain ⟨line', hline', hlinks⟩ := hab.symm.line hline
    rw [← hlinks.2.1]
    exact h.sorted hline'
  branching := by
    -- The links of line `v` include its parent, also if there is no such line.
    intro m node hnode v
    obtain ⟨node', hnode', hlinks⟩ := hab.symm.move hnode
    have hparent := congrArg (Option.bind · Prod.fst) (hab.lines v)
    simp only [Option.bind_map] at hparent
    change (b.line? v).bind LineNode.parent = (a.line? v).bind LineNode.parent at hparent
    rw [← hlinks.2.2, h.branching hnode', hparent]
  branched hline hparent := by
    obtain ⟨line', hline', hlinks⟩ := hab.symm.line hline
    obtain ⟨node, outer, hnode, houter, hbranch⟩ := h.branched hline' (hlinks.1.trans hparent)
    obtain ⟨node', hnode', hmove⟩ := hab.move hnode
    obtain ⟨outer', houter', hlinks'⟩ := hab.line houter
    grind

end SameLinks

/-! ### Adding a move -/

section AddMove

variable {line : LineNode} {node : MoveNode}

/-- The line of a new move has it at the end of its list. -/
theorem line?_addMove (hline : a.line? node.parent = some line) (w : Nat) :
    (a.addMove node).line? w =
      if w = node.parent then some { line with moves := line.moves.push a.moves.size }
      else a.line? w := by
  rw [addMove, line?_pushMove, line?_updateLine]
  by_cases hw : w = node.parent
  · rw [if_pos hw.symm, if_pos hw, hw, hline]
    rfl
  · rw [if_neg (Ne.symm hw), if_neg hw]

/-- A new move is the last one, and no other changes. -/
theorem move?_addMove (a : Arena) (node : MoveNode) (m : Nat) :
    (a.addMove node).move? m = if m = a.moves.size then some node else a.move? m := by
  rw [addMove, move?_pushMove]
  rfl

/-- An arena is extended by a new move. -/
theorem extends_addMove (hline : a.line? node.parent = some line) :
    a.Extends (a.addMove node) where
  lines hw := by grind [line?_addMove hline]
  moves hm := by grind [move?_addMove]

variable (h : a.IsTree) (hline : a.line? node.parent = some line)

include h hline

/-- A new move is in the list of its line, once, and in no other. -/
theorem IsTree.listed_addMove {w : Nat} {x : LineNode} (hx : (a.addMove node).line? w = some x)
    (m : Nat) : x.moves.count m =
      if ((a.addMove node).move? m).map MoveNode.parent = some w then 1 else 0 := by
  rw [line?_addMove hline] at hx
  rw [move?_addMove]
  -- Whether the line is the one that got a move, and whether the move is the new one.
  by_cases hw : w = node.parent <;> by_cases hm : m = a.moves.size
  · rw [if_pos hw] at hx
    cases hx
    rw [if_pos hm, hm, Array.count_push_self, h.count_size hline, Option.map_some,
      if_pos (congrArg some hw.symm)]
  · rw [if_pos hw] at hx
    cases hx
    rw [if_neg hm, Array.count_push_of_ne (Ne.symm hm), h.listed hline, hw]
  · rw [if_neg hw] at hx
    rw [if_pos hm, hm, h.count_size hx, Option.map_some,
      if_neg fun heq => hw (Option.some.inj heq).symm]
  · rw [if_neg hw] at hx
    rw [if_neg hm, h.listed hx]

/-- A new move is numbered by how many were in its line before. -/
theorem IsTree.numbered_addMove (hnumber : node.number = oneMore line.moves.size) {w : Nat}
    {x : LineNode} (hx : (a.addMove node).line? w = some x) {i m : Nat} {y : MoveNode}
    (hi : x.moves[i]? = some m) (hy : (a.addMove node).move? m = some y) :
    y.number = oneMore i := by
  rw [line?_addMove hline] at hx
  rw [move?_addMove] at hy
  -- A move listed before has its old entry, since it is not the last one.
  have hold {u : Nat} {z : LineNode} (hz : a.line? u = some z) (hi : z.moves[i]? = some m) :
      y.number = oneMore i := by
    have hlt := h.lt_of_mem_moves hz (Array.mem_of_getElem? hi)
    rw [if_neg (Nat.ne_of_lt hlt)] at hy
    exact h.numbered hz hi hy
  -- On the line that got the move, the last place is that of the new move.
  split at hx
  · cases hx
    rw [Array.getElem?_push] at hi
    split at hi
    · next hlast =>
      rw [if_pos (Option.some.inj hi).symm] at hy
      cases hy
      rw [hnumber, hlast]
    · exact hold hline hi
  · exact hold hx hi

/-- A new move has the largest position, so the list of its line stays sorted. -/
theorem IsTree.sorted_addMove {w : Nat} {x : LineNode} (hx : (a.addMove node).line? w = some x) :
    x.moves.toList.Pairwise (· < ·) := by
  rw [line?_addMove hline] at hx
  split at hx
  · cases hx
    rw [Array.toList_push, List.pairwise_append]
    refine ⟨h.sorted hline, List.pairwise_singleton .., ?_⟩
    intro m hm n hn
    obtain rfl := List.mem_singleton.1 hn
    exact h.lt_of_mem_moves hline (Array.mem_toList_iff.1 hm)
  · exact h.sorted hx

/-- No line branches from the new move, and all others branch from where they did. -/
theorem IsTree.branching_addMove (hvariations : node.variations = #[]) {m : Nat} {y : MoveNode}
    (hy : (a.addMove node).move? m = some y) (w : Nat) : y.variations.count w =
      if ((a.addMove node).line? w).bind LineNode.parent = some m then 1 else 0 := by
  have hparents : ((a.addMove node).line? w).bind LineNode.parent =
      (a.line? w).bind LineNode.parent := by
    rw [line?_addMove hline]
    split
    · next hw => rw [hw, hline]; rfl
    · rfl
  rw [hparents]
  rw [move?_addMove] at hy
  split at hy
  · next hm =>
    cases hy
    -- A line that starts as an alternative to the new move would have been there before it.
    have hnone : (a.line? w).bind LineNode.parent ≠ some m := by
      intro hsome
      obtain ⟨x, hx, hxm⟩ := Option.bind_eq_some_iff.1 hsome
      obtain ⟨y, -, hy, -⟩ := h.branched hx hxm
      exact absurd (lt_of_move? hy) (by omega)
    rw [if_neg hnone, hvariations]
    rfl
  · exact h.branching hy w

/-- A new move has no lines that branch from it yet. -/
theorem IsTree.branched_addMove {w m : Nat} {x : LineNode}
    (hx : (a.addMove node).line? w = some x) (hm : x.parent = some m) :
    ∃ y outer, (a.addMove node).move? m = some y ∧
      (a.addMove node).line? y.parent = some outer ∧ x.depth = oneMore outer.depth ∧
      y.parent < w := by
  -- The line was there before, perhaps with one move less.
  have hold : ∃ z, a.line? w = some z ∧ z.parent = some m ∧ z.depth = x.depth := by
    rw [line?_addMove hline] at hx
    split at hx
    · next hw =>
      cases hx
      exact ⟨line, hw ▸ hline, hm, rfl⟩
    · exact ⟨x, hx, hm, rfl⟩
  obtain ⟨z, hz, hzm, hdepth⟩ := hold
  obtain ⟨y, outer, hy, houter, hdeeper, hlt⟩ := h.branched hz hzm
  -- So were the move it starts from and the line of that move.
  obtain ⟨y', hy', hparent⟩ := (extends_addMove hline).moves hy
  obtain ⟨outer', houter', hsame⟩ := (extends_addMove hline).lines houter
  refine ⟨y', outer', hy', hparent ▸ houter', ?_, hparent ▸ hlt⟩
  rw [← hdepth, hdeeper, hsame]

/-- A move that has the number behind the last move of its line, and no alternatives yet, can be
added. -/
theorem IsTree.addMove (hnumber : node.number = oneMore line.moves.size)
    (hvariations : node.variations = #[]) : (a.addMove node).IsTree where
  main := by
    obtain ⟨first, hfirst, hmain⟩ := h.main
    grind [line?_addMove hline]
  owned hm := by
    rw [move?_addMove] at hm
    show _ < (a.lines.modify _ _).size
    rw [Array.size_modify]
    split at hm
    · cases hm
      exact lt_of_line? hline
    · exact h.owned hm
  listed := h.listed_addMove hline
  numbered := h.numbered_addMove hline hnumber
  sorted := h.sorted_addMove hline
  branching := h.branching_addMove hline hvariations
  branched := h.branched_addMove hline

end AddMove

/-! ### Entering a variation -/

section AddLine

variable {line : LineNode}

/-- A new line is the last one, and no other changes. -/
theorem line?_addLine (a : Arena) (line : LineNode) (w : Nat) :
    (a.addLine line).line? w = if w = a.lines.size then some line else a.line? w := by
  unfold addLine
  split
  · rw [line?_updateMove, line?_pushLine]
  · exact line?_pushLine ..

/-- The move that a new line branches from has it at the end of its list. -/
theorem move?_addLine (a : Arena) (line : LineNode) (m : Nat) :
    (a.addLine line).move? m =
      if line.parent = some m then
        (a.move? m).map fun node => { node with variations := node.variations.push a.lines.size }
      else a.move? m := by
  unfold addLine
  split
  · next n hn =>
    rw [move?_updateMove, move?_pushLine, hn]
    simp only [Option.some.injEq]
  · next hnone =>
    rw [hnone, if_neg nofun, move?_pushLine]

theorem size_lines_addLine (a : Arena) (line : LineNode) :
    (a.addLine line).lines.size = a.lines.size + 1 := by
  unfold addLine
  split
  · exact size_lines_pushLine ..
  · exact size_lines_pushLine ..

/-- A new line changes nothing of a move but the list of its variations. -/
theorem exists_move?_of_addLine {m : Nat} {node : MoveNode}
    (h : (a.addLine line).move? m = some node) :
    ∃ node', a.move? m = some node' ∧ node.span = node'.span ∧ node.number = node'.number ∧
      node.parent = node'.parent ∧ node.variations =
        if line.parent = some m then node'.variations.push a.lines.size else node'.variations := by
  rw [move?_addLine] at h
  split at h
  · next hm =>
    obtain ⟨node', hnode', rfl⟩ := Option.map_eq_some_iff.1 h
    exact ⟨node', hnode', rfl, rfl, rfl, (if_pos hm).symm⟩
  · next hm => exact ⟨node, h, rfl, rfl, rfl, (if_neg hm).symm⟩

/-- An arena is extended by a new line. -/
theorem extends_addLine (a : Arena) (line : LineNode) : a.Extends (a.addLine line) where
  lines hw := by grind [line?_addLine]
  moves hm := by grind [move?_addLine]

/-- Moves stay in their lines. -/
theorem map_parent_addLine (a : Arena) (line : LineNode) (m : Nat) :
    ((a.addLine line).move? m).map MoveNode.parent = (a.move? m).map MoveNode.parent := by
  rw [move?_addLine]
  split
  · rw [Option.map_map]
    rfl
  · rfl

variable (h : a.IsTree)

include h

/-- A new line has no moves yet, and the lists of the others do not change. -/
theorem IsTree.listed_addLine (hmoves : line.moves = #[]) {w : Nat} {x : LineNode}
    (hx : (a.addLine line).line? w = some x) (m : Nat) : x.moves.count m =
      if ((a.addLine line).move? m).map MoveNode.parent = some w then 1 else 0 := by
  rw [map_parent_addLine]
  rw [line?_addLine] at hx
  split at hx
  · next hnew =>
    cases hx
    -- No move can belong to a line that did not exist.
    have hnone : (a.move? m).map MoveNode.parent ≠ some w := by
      intro hsome
      obtain ⟨y, hy, hparent⟩ := Option.map_eq_some_iff.1 hsome
      exact absurd (h.owned hy) (by omega)
    rw [if_neg hnone, hmoves]
    rfl
  · exact h.listed hx m

/-- No move is numbered anew for a new line. -/
theorem IsTree.numbered_addLine (hmoves : line.moves = #[]) {w : Nat} {x : LineNode}
    (hx : (a.addLine line).line? w = some x) {i m : Nat} {y : MoveNode}
    (hi : x.moves[i]? = some m) (hy : (a.addLine line).move? m = some y) :
    y.number = oneMore i := by
  obtain ⟨y', hy', -, hnumber, -⟩ := exists_move?_of_addLine hy
  rw [line?_addLine] at hx
  split at hx
  · cases hx
    rw [hmoves] at hi
    cases hi
  · rw [hnumber]
    exact h.numbered hx hi hy'

/-- The new line is added to the list of the move it branches from, and was in no list before. -/
theorem IsTree.branching_addLine {m : Nat} {y : MoveNode}
    (hy : (a.addLine line).move? m = some y) (w : Nat) : y.variations.count w =
      if ((a.addLine line).line? w).bind LineNode.parent = some m then 1 else 0 := by
  obtain ⟨y', hy', -, -, -, hvariations⟩ := exists_move?_of_addLine hy
  have hcount := h.branching hy' w
  have hnew : a.line? a.lines.size = none := Array.getElem?_size
  rw [hvariations, line?_addLine]
  -- The new line is an alternative to the last move of the line around it and to no other.
  by_cases hw : w = a.lines.size
  · rw [hw, hnew, Option.bind_none, if_neg nofun] at hcount
    rw [if_pos hw, Option.bind_some, hw]
    by_cases hbranch : line.parent = some m
    · rw [if_pos hbranch, if_pos hbranch, Array.count_push_self, hcount]
    · rw [if_neg hbranch, if_neg hbranch, hcount]
  · rw [if_neg hw, ← hcount]
    split
    · exact Array.count_push_of_ne (Ne.symm hw)
    · rfl

/-- A new line is one deeper than the line of its move, and behind it. -/
theorem IsTree.branched_addLine
    (hparent : ∀ m, line.parent = some m → ∃ node outer, a.move? m = some node ∧
      a.line? node.parent = some outer ∧ line.depth = oneMore outer.depth)
    {w m : Nat} {x : LineNode} (hx : (a.addLine line).line? w = some x) (hm : x.parent = some m) :
    ∃ y outer, (a.addLine line).move? m = some y ∧
      (a.addLine line).line? y.parent = some outer ∧ x.depth = oneMore outer.depth ∧
      y.parent < w := by
  -- The condition holds of the new line by assumption, and of the others as before.
  have hbranch : ∃ node outer, a.move? m = some node ∧ a.line? node.parent = some outer ∧
      x.depth = oneMore outer.depth ∧ node.parent < w := by
    rw [line?_addLine] at hx
    split at hx
    · next hnew =>
      cases hx
      obtain ⟨y, outer, hy, houter, hdepth⟩ := hparent m hm
      exact ⟨y, outer, hy, houter, hdepth, hnew ▸ lt_of_line? houter⟩
    · exact h.branched hx hm
  obtain ⟨y, outer, hy, houter, hdepth, hlt⟩ := hbranch
  obtain ⟨y', hy', hline⟩ := (extends_addLine a line).moves hy
  obtain ⟨outer', houter', hsame⟩ := (extends_addLine a line).lines houter
  exact ⟨y', outer', hy', hline ▸ houter', hsame ▸ hdepth, hline ▸ hlt⟩

/-- A line without moves can be added, one deeper than the line of the move it branches from. -/
theorem IsTree.addLine (hmoves : line.moves = #[])
    (hparent : ∀ m, line.parent = some m → ∃ node outer, a.move? m = some node ∧
      a.line? node.parent = some outer ∧ line.depth = oneMore outer.depth) :
    (a.addLine line).IsTree where
  main := by
    obtain ⟨first, hfirst, hmain⟩ := h.main
    grind [line?_addLine]
  owned hm := by
    obtain ⟨y, hy, -, -, hline, -⟩ := exists_move?_of_addLine hm
    rw [hline, size_lines_addLine]
    exact Nat.lt_succ_of_lt (h.owned hy)
  listed := h.listed_addLine hmoves
  numbered := h.numbered_addLine hmoves
  sorted hw := by
    rw [line?_addLine] at hw
    split at hw
    · cases hw
      rw [hmoves]
      exact List.Pairwise.nil
    · exact h.sorted hw
  branching := h.branching_addLine
  branched := h.branched_addLine hparent

end AddLine

end Arena

/-! ## The run -/

namespace Filler

/-- So far the tables describe a tree, and the lines being filled in are nested in it. -/
structure Grows (f : Filler) : Prop where
  tree : f.arena.IsTree
  frames : f.arena.Fits f.frame f.outer

variable {f g : Filler}

/-- A filler starts with a tree of one line. -/
theorem grows_start (s : Span) : (start s).Grows where
  tree := by
    -- There is one line, and it has no moves.
    have hline {v : Nat} {x : LineNode} (h : (start s).arena.line? v = some x) :
        v = 0 ∧ x = ⟨none, #[], s, none, 0⟩ := by
      cases v with
      | zero => exact ⟨rfl, (Option.some.inj h).symm⟩
      | succ v => cases h
    constructor
    case main => exact ⟨_, rfl, rfl, rfl⟩
    case owned => nofun
    case listed =>
      intro v x hx m
      rw [(hline hx).2]
      rfl
    case numbered =>
      intro v x hx i m node hi hnode
      cases hnode
    case sorted =>
      intro v x hx
      rw [(hline hx).2]
      exact List.Pairwise.nil
    case branching => nofun
    case branched =>
      intro v x m hx hm
      rw [(hline hx).2] at hm
      cases hm
  frames := ⟨⟨⟨_, rfl, rfl⟩, nofun⟩, rfl⟩

/-- What is said about lines and moves may change. -/
theorem Grows.of_sameLinks (h : f.Grows) {arena : Arena} (hsame : f.arena.SameLinks arena) :
    Grows { f with arena } :=
  ⟨hsame.isTree h.tree, h.frames.extend hsame.toExtends⟩

/-- A comment adds nothing to the tree. -/
theorem Grows.comment (h : f.Grows) (text : String) : (f.comment text).Grows := by
  unfold Filler.comment
  split
  · exact h
  · split
    · exact h.of_sameLinks (Arena.sameLinks_updateMove _ _ fun _ => rfl)
    · exact h.of_sameLinks (Arena.sameLinks_updateLine _ _ fun _ => rfl)

/-- A glyph adds nothing to the tree. -/
theorem Grows.addNag (h : f.Grows) (nag : Nag) : (f.addNag nag).Grows := by
  unfold Filler.addNag
  split
  · exact h.of_sameLinks (Arena.sameLinks_updateMove _ _ fun _ => rfl)
  · exact h

/-- Closing a line leaves the frame around it in place. -/
theorem Grows.leave (h : f.Grows) (stop : Nat) {parent : Frame} {outer : List Frame}
    (houter : f.outer = parent :: outer) : (f.leave stop parent outer).Grows := by
  have hsame : f.arena.SameLinks (f.leave stop parent outer).arena :=
    f.arena.sameLinks_updateLine f.frame.line fun _ => rfl
  have hframes := h.frames
  rw [houter] at hframes
  exact ⟨hsame.isTree h.tree, hframes.2.2.extend hsame.toExtends⟩

/-- A move is added to the line that is open. -/
theorem Grows.addMove (h : f.Grows) (san : String) (span : Span) (wellFormed : Bool) :
    (f.addMove san span wellFormed).Grows := by
  obtain ⟨line, hline, -⟩ := h.frames.head.line
  have hcount : f.count = line.moves.size := by
    rw [count, hline]
    rfl
  refine ⟨h.tree.addMove hline (congrArg oneMore hcount) rfl, ?_⟩
  apply (h.frames.extend (Arena.extends_addMove hline)).with_last
  rintro m ⟨⟩
  exact ⟨_, (Arena.move?_addMove ..).trans (if_pos rfl), rfl⟩

/-- A variation branches from the last move of the line that is open, if it has one. -/
theorem Grows.enter (h : f.Grows) (span : Span) : (f.enter span).Grows := by
  obtain ⟨outer, houter, hdepth⟩ := h.frames.head.line
  refine ⟨h.tree.addLine rfl ?_, ⟨?_, nofun⟩, Arena.lt_of_line? houter, ?_⟩
  · intro m hm
    obtain ⟨node, hnode, hline⟩ := h.frames.head.last hm
    refine ⟨node, outer, hnode, hline ▸ houter, ?_⟩
    rw [hdepth, oneMore_min]
  · exact ⟨_, (Arena.line?_addLine ..).trans (if_pos rfl), rfl⟩
  · exact h.frames.extend (Arena.extends_addLine ..)

/-- One step keeps the tree. -/
theorem Grows.step (h : f.Grows) {lexeme : Lexeme} (hstep : f.step? lexeme = some g) :
    g.Grows := by
  unfold step? at hstep
  split at hstep
  · cases hstep
    exact h.comment _
  · cases hstep
    exact h
  · split at hstep
    case h_1 =>
      cases hstep
      exact ⟨h.tree, h.frames⟩
    case h_2 =>
      cases hstep
      exact h.addMove ..
    case h_3 =>
      cases hstep
      exact h.addNag _
    case h_4 | h_5 =>
      cases hstep
      exact h
    case h_6 =>
      cases hstep
      exact h.enter _
    case h_7 =>
      split at hstep
      · cases hstep
      · next houter =>
        cases hstep
        exact h.leave _ houter
    case h_8 | h_9 =>
      split at hstep
      · cases hstep
      · cases hstep
        exact h

/-- A filler that grows does so over any lexemes. -/
theorem Grows.run (h : f.Grows) (lexemes : List Lexeme) : (f.run lexemes).Grows := by
  induction lexemes generalizing f with
  | nil => exact h
  | cons lexeme rest ih =>
    rw [Filler.run]
    split
    · next next hnext => exact ih (h.step hnext)
    · exact h

end Filler

end Scorebook
