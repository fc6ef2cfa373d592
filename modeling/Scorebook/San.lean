/-!
# Standard algebraic notation

Which words are moves. Only the notation is checked, never the position: `Kab5` and `P8c3` are
moves that no game can contain. A move is a piece letter (none for a pawn), an optional file and an
optional rank to tell pieces apart, an optional `x`, the target square and an optional promotion,
and it may end in one sign of check or mate. Castling, the placing of a piece from the hand
(`N@f3`) and null moves have forms of their own.

What follows the letter of a promotion is not looked at, so `e8=QQ` counts as a move.
-/

namespace Scorebook.San

/-! ## Squares and pieces -/

/-- A letter that names a file. -/
def isFile (c : Char) : Bool :=
  'a' ≤ c && c ≤ 'h'

/-- A digit that names a rank. -/
def isRank (c : Char) : Bool :=
  '1' ≤ c && c ≤ '8'

/-- A letter that names a piece where a move starts with it. -/
def isPiece (c : Char) : Bool :=
  c == 'P' || c == 'N' || c == 'B' || c == 'R' || c == 'Q' || c == 'K'

/-- A letter that names a piece behind `=` or before `@`, where both cases are read. -/
def isPieceAnyCase (c : Char) : Bool :=
  isPiece c.toUpper

/-! ## The parts of a move -/

/-- A promotion, or nothing. -/
def isPromotion : List Char → Bool
  | [] => true
  | '=' :: piece :: _ => isPieceAnyCase piece
  | _ => false

/-- A target square with an optional promotion. -/
def isTarget : List Char → Bool
  | file :: rank :: rest => isFile file && isRank rank && isPromotion rest
  | _ => false

/-- Takes off the first character if it satisfies `p`, and says whether it did. -/
def takeIf (p : Char → Bool) : List Char → Bool × List Char
  | c :: rest => if p c then (true, rest) else (false, c :: rest)
  | [] => (false, [])

/-- What follows the piece letter: origin, capture, target, promotion. A file and a rank with
nothing but a promotion behind them are the target itself. -/
def isJourney (word : List Char) : Bool :=
  let (hasFile, word) := takeIf isFile word
  let (hasRank, word) := takeIf isRank word
  match word with
  | 'x' :: rest => isTarget rest
  | [] | '=' :: _ => hasFile && hasRank && isPromotion word
  | _ => isTarget word

/-- A move without its sign of check or mate. -/
def isBareMove : List Char → Bool
  | ['-', '-'] => true
  | ['O', '-', 'O'] => true
  | ['O', '-', 'O', '-', 'O'] => true
  | ['@', file, rank] => isFile file && isRank rank
  | [piece, '@', file, rank] => isPieceAnyCase piece && isFile file && isRank rank
  | word => isJourney (takeIf isPiece word).2

/-- A word without the one sign of check or mate it may end in. -/
def dropCheck (word : List Char) : List Char :=
  match word.getLast? with
  | some '+' | some '#' => word.dropLast
  | _ => word

/-! ## Moves -/

/-- A word that starts like castling written with zeros. -/
def startsWithZeroCastling : List Char → Bool
  | '0' :: '-' :: '0' :: _ => true
  | _ => false

/-- Is this word a move? Castling may be written with zeros, and `--` and `Z0` are null moves. -/
def isMove (word : List Char) : Bool :=
  word == ['-', '-'] || word == ['Z', '0'] ||
    isBareMove (dropCheck
      (if startsWithZeroCastling word then word.map fun c => if c == '0' then 'O' else c
      else word))

end Scorebook.San
