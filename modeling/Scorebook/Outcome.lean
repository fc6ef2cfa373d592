/-!
# The outcome of a game

The four outcomes the format can write, used both as the marker that ends the movetext and as the
value of the `Result` tag.
-/

namespace Scorebook

/-- How a game ended, as far as the score says. -/
inductive Outcome
  | whiteWin
  | blackWin
  | draw
  | undefined
deriving DecidableEq, Repr, Inhabited

namespace Outcome

/-- The outcome as it is written. -/
def text : Outcome → List Char
  | whiteWin => ['1', '-', '0']
  | blackWin => ['0', '-', '1']
  | draw => ['1', '/', '2', '-', '1', '/', '2']
  | undefined => ['*']

/-- The outcome written so. -/
def ofText? : List Char → Option Outcome
  | ['1', '-', '0'] => some whiteWin
  | ['0', '-', '1'] => some blackWin
  | ['1', '/', '2', '-', '1', '/', '2'] => some draw
  | ['*'] => some undefined
  | _ => none

instance : ToString Outcome := ⟨fun o => String.ofList o.text⟩

end Outcome

end Scorebook
