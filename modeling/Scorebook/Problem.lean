import Scorebook.Text

/-!
# Problems and verdicts

A `Problem` is one thing wrong with a database, precise enough to be shown in place: most are a
fault at a range of bytes, a few carry more. A `Verdict` is the coarse classification of problems,
and what checking a game answers: the verdict of the first problem found, or `valid`.

Two properties of a problem decide what happens to it. A *critical* problem stops the operation
that found it whatever anyone says. An *advisory* problem is only looked for in strict mode, and
never makes a game invalid.
-/

namespace Scorebook

/-! ## Verdicts -/

/-- The coarse kinds of problem, and their absence. -/
inductive Verdict
  | valid
  | illegalToken
  | illegalTagValue
  | illegalTagName
  | illegalMove
  | illegalTerminationMarker
  | undefined
deriving DecidableEq, Repr, Inhabited, Hashable

namespace Verdict

/-- The short name of a verdict. -/
def name : Verdict → String
  | valid => "valid"
  | illegalToken => "illegal token"
  | illegalTagValue => "illegal tag value"
  | illegalTagName => "illegal tag name"
  | illegalMove => "illegal move"
  | illegalTerminationMarker => "illegal termination marker"
  | undefined => "undefined error"

/-- The first of two verdicts that is not `valid`. -/
def orElse : Verdict → Verdict → Verdict
  | valid, next => next
  | first, _ => first

end Verdict

/-! ## Problems -/

/-- The problems that consist in a range of text. -/
inductive Fault
  | badNag
  | badSan
  | badTagName
  | badTerminationMarker
  | controlInTagValue
  | markerInVariation
  | missingTagValue
  | missingTerminationMarker
  | nagWithoutMove
  | tabInTagValue
  | unclosedComment
  | unclosedEscape
  | unclosedTag
  | unclosedTagValue
  | unexpectedCharacter
  | unexpectedHeaderText
  | unmatchedCloseParen
  | unmatchedOpenParen
  | variationWithoutMove
deriving DecidableEq, Repr

/-- One thing wrong with a database. -/
inductive Problem
  /-- The text of this range is at fault. -/
  | fault (kind : Fault) (span : Span)
  /-- The catalogue puts the game past the end of the database. -/
  | gameOutOfRange (game : Nat) (span : Span)
  /-- The header is not the one that was catalogued. -/
  | hashMismatch (game : Nat) (span : Span)
  /-- There is text between the termination marker and the next game. -/
  | tokensAfterTermination (marker extra : Span)
  /-- The system could not read the database. -/
  | io (reason : String)
deriving DecidableEq, Repr

namespace Fault

/-- The verdict a fault amounts to. -/
def verdict : Fault → Verdict
  | badTagName => .illegalTagName
  | controlInTagValue | missingTagValue | tabInTagValue | unclosedTagValue => .illegalTagValue
  | badNag | badSan => .illegalMove
  | badTerminationMarker | markerInVariation | missingTerminationMarker =>
    .illegalTerminationMarker
  | nagWithoutMove | unclosedComment | unclosedEscape | unclosedTag | unexpectedCharacter
  | unexpectedHeaderText | unmatchedCloseParen | unmatchedOpenParen | variationWithoutMove =>
    .illegalToken

/-- The faults after which no tree of the game can be given. -/
def isCritical : Fault → Bool
  | unmatchedCloseParen | unmatchedOpenParen => true
  | _ => false

/-- The fault in a sentence. -/
def message : Fault → String
  | badNag => "Unknown move annotation"
  | badSan => "Move is not in standard algebraic notation"
  | badTagName => "Tag names may only contain letters, digits and underscores"
  | badTerminationMarker => "Unrecognized game termination marker"
  | controlInTagValue => "Control character in tag value"
  | markerInVariation => "Termination marker inside a variation"
  | missingTagValue => "Tag value must be a quoted string"
  | missingTerminationMarker => "Game has no termination marker"
  | nagWithoutMove => "Annotation does not follow a move"
  | tabInTagValue => "Tab character in tag value"
  | unclosedComment => "Comment is not closed before end of file"
  | unclosedEscape => "Escaped line is not terminated"
  | unclosedTag => "Tag pair is missing its closing bracket"
  | unclosedTagValue => "Tag value is not closed on its line"
  | unexpectedCharacter => "Unexpected text in movetext"
  | unexpectedHeaderText => "Expected a tag pair"
  | unmatchedCloseParen => "Variation closed but never opened"
  | unmatchedOpenParen => "Variation opened but never closed"
  | variationWithoutMove => "Variation does not follow a move"

end Fault

namespace Problem

/-- The verdict a problem amounts to. -/
def verdict : Problem → Verdict
  | fault kind _ => kind.verdict
  | tokensAfterTermination .. => .illegalToken
  | gameOutOfRange .. | hashMismatch .. | io _ => .undefined

/-- Does the problem stop the operation that found it, whatever the handler answers? -/
def isCritical : Problem → Bool
  | fault kind _ => kind.isCritical
  | gameOutOfRange .. | hashMismatch .. | io _ => true
  | tokensAfterTermination .. => false

/-- Is the problem only looked for in strict mode? -/
def isAdvisory : Problem → Bool
  | fault .tabInTagValue _ | tokensAfterTermination .. => true
  | _ => false

/-- The main place of the problem, if it has one. -/
def span? : Problem → Option Span
  | fault _ span | gameOutOfRange _ span | hashMismatch _ span
  | tokensAfterTermination _ span => some span
  | io _ => none

/-- The problem in a sentence. -/
def message : Problem → String
  | fault kind _ => kind.message
  | gameOutOfRange game _ => s!"Game {game} lies beyond the end of the database"
  | hashMismatch game _ => s!"The header of game {game} changed since the database was indexed"
  | tokensAfterTermination .. => "Text after the termination marker"
  | io reason => "I/O error: " ++ reason

end Problem

/-- The verdict on a text with these problems, in the order they were found. -/
def Verdict.ofProblems (problems : List Problem) : Verdict :=
  ((problems.find? (!·.isAdvisory)).map Problem.verdict).getD .valid

/-! ## Failures -/

/-- Why an operation on a database gave no answer. -/
inductive Failure
  /-- The system could not read the database. -/
  | io (reason : String)
  /-- A critical problem was found. -/
  | fatal (problem : Problem)
  /-- The handler asked to stop after this problem. -/
  | aborted (problem : Problem)
deriving DecidableEq, Repr

namespace Failure

/-- The problem that stopped the operation, if it was one. -/
def problem? : Failure → Option Problem
  | io _ => none
  | fatal problem | aborted problem => some problem

/-- The verdict a failure amounts to. -/
def verdict : Failure → Verdict
  | io _ => .undefined
  | fatal problem | aborted problem => problem.verdict

/-- The failure in a sentence. -/
def message : Failure → String
  | io reason => "I/O error: " ++ reason
  | fatal problem => problem.message
  | aborted problem => "aborted by error handler: " ++ problem.message

end Failure

end Scorebook
