import Scorebook.Dump.Run

/-!
# The lines of a game

What is printed for a game is put together from lines that each tell one thing of it: which game it
is and how it ended, its tags, its moves, and the verdict of the check if there is anything to say.
`Dump.Shows` says for a list of lines which of them stand where, whatever has put them together, and
`Dump.gameLines_shows` that the lines of a game are such a list.
-/

namespace Scorebook.Dump

/-! ## Single lines -/

/-- The line that says which game this is, who played it and how it ended. -/
def titleLine (g : Game) : String :=
  "Game " ++ toString g.number ++ ": " ++ (g.tag? "White").getD "?" ++ " - " ++
    (g.tag? "Black").getD "?" ++ " " ++ toString g.outcome

/-- The line that is printed for a tag. -/
def tagLine (tag : TagPair) : String :=
  "  [" ++ tag.name ++ " \"" ++ tag.value ++ "\"]"

/-- The main line with everything in it, and how many lines it branches into. -/
def moveLines (format : NagFormat) (main : Variation) : List String :=
  ["  " ++ main.write format, "  (" ++ toString main.leafCount ++ " lines)"]

/-- The verdict of the check that is asked for. -/
def verdictOf (request : Request) (g : Game) : Verdict :=
  if request.deep then g.headerVerdict.orElse g.score.verdict else g.headerVerdict

/-- The line that tells a verdict. -/
def statusLine (verdict : Verdict) : String :=
  "  status: " ++ verdict.name

/-! ## All lines -/

/-- These lines show the game as it is asked for: the title first, then the tags and then the moves
if they are asked for, and a verdict last if the game is not valid. There are no other lines. -/
structure Shows (request : Request) (g : Game) (lines : List String) : Prop where
  title : lines.head? = some (titleLine g)
  tags : request.tags = true → g.tags.map tagLine <+: lines.tail
  moves : request.moves = true → moveLines request.nagFormat g.score.mainLine <:+: lines.tail
  status : verdictOf request g ≠ .valid →
    lines.tail.getLast? = some (statusLine (verdictOf request g))
  length : lines.length = 1 + (if request.tags then g.tags.length else 0) +
    (if request.moves then 2 else 0) + (if verdictOf request g = .valid then 0 else 1)

/-- What a check says does not depend on who hears of it. -/
theorem check_fst (request : Request) (db : Database) (g : Game) :
    (db.check g (if request.deep then .deep else .simple)).1 = verdictOf request g := by
  unfold Database.check Game.check verdictOf
  cases request.deep <;> rfl

/-- A dump prints the title, then the tags, the moves and the status as far as they are wanted. -/
theorem gameLines_eq (request : Request) (db : Database) (g : Game) :
    (gameLines request db g).1 =
      titleLine g :: ((if request.tags then g.tags.map tagLine else []) ++
        (if request.moves then moveLines request.nagFormat g.score.mainLine else []) ++
        (if verdictOf request g = .valid then [] else [statusLine (verdictOf request g)])) := by
  rw [← check_fst request db g]
  rfl

/-- The lines printed for a game show it. -/
theorem gameLines_shows (request : Request) (db : Database) (g : Game) :
    Shows request g (gameLines request db g).1 := by
  rw [gameLines_eq]
  refine ⟨rfl, ?_, ?_, ?_, ?_⟩
  · intro htags
    rw [if_pos htags, List.tail_cons, List.append_assoc]
    exact List.prefix_append ..
  · intro hmoves
    rw [if_pos hmoves, List.tail_cons]
    exact ⟨_, _, rfl⟩
  · intro hinvalid
    rw [if_neg hinvalid, List.tail_cons, List.getLast?_concat]
  · simp only [List.length_cons, List.length_append]
    split <;> split <;> split <;> simp [moveLines] <;> omega

end Scorebook.Dump
