import Scorebook.Nag
import Scorebook.Problem

/-!
# The tree of a game

A game is a main line and alternatives to its moves, which have alternatives of their own. A
`Variation` is a sequence of moves and a `Move` holds the variations that branch from it, so the two
types contain each other.

A variation may also be written before the first move of its line, where there is no move to branch
from. Such a *stray* is kept with the line it was written in, but it belongs to no move, and
nothing that starts at the main line reaches it.

Moves and parentheses are counted in 32 bits. A count that has reached the end of them stays there,
so that from some move on all moves of a line have the same number (`oneMore`).

The functions here walk a tree from a given line with a list of what is still to be visited, so they
need no deep stack however deeply a game is nested.
-/

namespace Scorebook

/-- The largest number of 32 bits. -/
def lastCount : Nat := 0xffffffff

/-- Counts one more. Behind the largest number of 32 bits there is none, and it is given again. -/
def oneMore (n : Nat) : Nat :=
  min (n + 1) lastCount

/-- What is counted on from a number that may have been cut short is counted on as if it had not. -/
@[simp] theorem oneMore_min (n : Nat) : oneMore (min n lastCount) = oneMore n := by
  simp only [oneMore, lastCount]
  omega

@[simp] theorem oneMore_zero : oneMore 0 = 1 := rfl

mutual

/-- A line of play: the main line of a game, or an alternative to one move. -/
structure Variation where
  /-- The position among all variations of the game in the order of their parentheses; the main
  line is 0. -/
  id : Nat
  /-- 0 for the main line, one more for each parenthesis around the line, in 32 bits. -/
  depth : Nat
  /-- The text of the line, without its parentheses. -/
  span : Span
  /-- The comment before the first move. -/
  comment : Option String
  moves : List Move
  /-- The variations written before the first move. -/
  strays : List Variation

/-- One move of a line. -/
structure Move where
  /-- The move as written. -/
  san : String
  span : Span
  /-- The position in the line, from one, in 32 bits. -/
  number : Nat
  /-- The move number written before the move. -/
  indicated : Option Nat
  /-- The comments behind the move, joined by blanks. -/
  comment : Option String
  nags : Array Nag
  /-- Is the move in algebraic notation? -/
  wellFormed : Bool
  /-- The alternatives to the move. -/
  variations : List Variation

end

namespace Move

/-- The verdict on the notation of the move. -/
def verdict (m : Move) : Verdict :=
  if m.wellFormed then .valid else .illegalMove

end Move

/-! ## The size of a tree -/

mutual

/-- A measure of a line and everything reachable from it, large enough that any way of taking the
line apart makes it smaller. -/
def Variation.weight : Variation → Nat
  | ⟨_, _, _, _, moves, _⟩ => 3 + movesWeight moves

/-- The measure of the moves of a line. -/
def movesWeight : List Move → Nat
  | [] => 0
  | m :: rest => m.weight + movesWeight rest

/-- The measure of a move and its alternatives. -/
def Move.weight : Move → Nat
  | ⟨_, _, _, _, _, _, _, variations⟩ => 1 + variationsWeight variations

/-- The measure of several lines. -/
def variationsWeight : List Variation → Nat
  | [] => 0
  | v :: rest => v.weight + variationsWeight rest

end

/-- A line weighs more than its moves. -/
theorem Variation.weight_eq (v : Variation) : v.weight = 3 + movesWeight v.moves := by
  cases v; rw [weight]

/-- A move weighs more than the lines that branch from it. -/
theorem Move.weight_eq (m : Move) : m.weight = 1 + variationsWeight m.variations := by
  cases m; rw [weight]

theorem variationsWeight_append (xs ys : List Variation) :
    variationsWeight (xs ++ ys) = variationsWeight xs + variationsWeight ys := by
  induction xs with
  | nil => simp [variationsWeight]
  | cons v xs ih => simp [variationsWeight, ih, Nat.add_assoc]

namespace Variation

/-- The alternatives to the moves of a line, in order. -/
def children (v : Variation) : List Variation :=
  v.moves.flatMap Move.variations

/-- The lines that branch from moves weigh no more than the moves. -/
theorem variationsWeight_flatMap_le (moves : List Move) :
    variationsWeight (moves.flatMap Move.variations) ≤ movesWeight moves := by
  induction moves with
  | nil => simp [variationsWeight]
  | cons m moves ih =>
    rw [List.flatMap_cons, variationsWeight_append, movesWeight, Move.weight_eq]
    omega

/-- The lines one step behind a line weigh less than it, so a visit of all of them ends. -/
theorem variationsWeight_children_lt (v : Variation) :
    variationsWeight v.children < v.weight := by
  have := variationsWeight_flatMap_le v.moves
  rw [weight_eq, children]
  omega

/-! ## Walking the tree -/

/-- The number of variations in the trees still to be visited, on top of those counted. -/
def countFrom (pending : List Variation) (count : Nat) : Nat :=
  match pending with
  | [] => count
  | v :: rest => countFrom (v.children ++ rest) (count + 1)
termination_by variationsWeight pending
decreasing_by
  have := variationsWeight_children_lt v
  rw [variationsWeight_append, variationsWeight]
  omega

/-- The number of distinct lines through a tree: the line itself, and one for each variation
reachable from it. -/
def leafCount (v : Variation) : Nat :=
  countFrom [v] 0

/-- A variation together with the move it branches from and the line of that move. -/
structure Branch where
  variation : Variation
  parent : Option (Move × Variation)

namespace Branch

/-- The branches that leave a line, in order. -/
def next (b : Branch) : List Branch :=
  b.variation.moves.flatMap fun m => m.variations.map fun v => ⟨v, some (m, b.variation)⟩

/-- The branches behind a branch lead to the lines behind its line. -/
theorem map_variation_next (b : Branch) :
    b.next.map Branch.variation = b.variation.children := by
  rw [next, children, List.map_flatMap]
  congr 1
  funext m
  rw [List.map_map]
  exact List.map_id _

end Branch

/-- Visits branches in order, appending the branches that leave each to those still to be
visited. -/
def visitFrom (pending : List Branch) (visited : Array Branch) : Array Branch :=
  match pending with
  | [] => visited
  | b :: rest => visitFrom (rest ++ b.next) (visited.push b)
termination_by variationsWeight (pending.map Branch.variation)
decreasing_by
  have := variationsWeight_children_lt b.variation
  rw [List.map_append, variationsWeight_append, Branch.map_variation_next, List.map_cons,
    variationsWeight]
  omega

/-- All variations reachable from a line, breadth first, the line itself in front. -/
def breadthFirst (v : Variation) : List Branch :=
  (visitFrom [⟨v, none⟩] #[]).toList

/-- Follows a path of move and variation indices down from a branch. -/
def follow? (b : Branch) : List (Nat × Nat) → Option Branch
  | [] => some b
  | (move, branch) :: path => do
    let m ← b.variation.moves[move]?
    let v ← m.variations[branch]?
    follow? ⟨v, some (m, b.variation)⟩ path

/-- The depth reached by entering the first alternative to the first move that has one, again and
again. -/
def firstDepth (v : Variation) : Nat :=
  match _h : v.children with
  | [] => v.depth
  | first :: _ => firstDepth first
termination_by v.weight
decreasing_by
  have := variationsWeight_children_lt v
  rw [_h, variationsWeight] at this
  omega

end Variation

end Scorebook
