import Scorebook.Movetext.Writing
import Scorebook.Proofs.Decoding

/-!
# What a line says

The `Outline` of a line is all that its movetext says, apart from where it stands: the moves as
written, their glyphs and comments, and the lines that branch from them. Outlined like this a line
is a sequence of `Word`s, counting parentheses and comments as words, and writing a line spells its
words one after the other with single blanks between them (`Variation.utf8_write_inFormat`). In the
numeric format a glyph is spelled as the word that it is (`Variation.utf8_write`).
-/

namespace Scorebook

/-! ## Outlines -/

mutual

/-- A line without the places it has in a text and in a tree. -/
structure Outline where
  /-- The comment before the first move. -/
  comment : Option String
  moves : List OutlineMove

/-- A move without its places. -/
structure OutlineMove where
  san : String
  wellFormed : Bool
  nags : List Nag
  comment : Option String
  /-- The lines that branch from the move. -/
  variations : List Outline

end

mutual

/-- The outline of a line. The variations that no move of it leads to are left out. -/
def Variation.outline : Variation → Outline
  | ⟨_, _, _, comment, moves, _⟩ => ⟨comment, movesOutline moves⟩

def movesOutline : List Move → List OutlineMove
  | [] => []
  | m :: ms => m.outline :: movesOutline ms

def Move.outline : Move → OutlineMove
  | ⟨san, _, _, _, comment, nags, wellFormed, variations⟩ =>
    ⟨san, wellFormed, nags.toList, comment, variationsOutline variations⟩

def variationsOutline : List Variation → List Outline
  | [] => []
  | v :: vs => v.outline :: variationsOutline vs

end

/-- Moves are outlined one by one. -/
theorem movesOutline_eq_map (ms : List Move) : movesOutline ms = ms.map Move.outline := by
  induction ms with
  | nil => rw [movesOutline, List.map_nil]
  | cons m ms ih => rw [movesOutline, ih, List.map_cons]

/-- Lines are outlined one by one. -/
theorem variationsOutline_eq_map (vs : List Variation) :
    variationsOutline vs = vs.map Variation.outline := by
  induction vs with
  | nil => rw [variationsOutline, List.map_nil]
  | cons v vs ih => rw [variationsOutline, ih, List.map_cons]

/-- The outline of a line is its comment and the outlines of its moves; strays have none. -/
theorem Variation.outline_eq (v : Variation) :
    v.outline = ⟨v.comment, v.moves.map Move.outline⟩ := by
  cases v
  rw [outline, movesOutline_eq_map]

/-- The outline of a move is all that is written of it. -/
theorem Move.outline_eq (m : Move) : m.outline =
    ⟨m.san, m.wellFormed, m.nags.toList, m.comment, m.variations.map Variation.outline⟩ := by
  cases m
  rw [outline, variationsOutline_eq_map]

/-! ## Words -/

/-- What movetext consists of as far as the tree of a game goes. -/
inductive Word
  | opening
  | closing
  | comment (text : String)
  | san (text : String) (wellFormed : Bool)
  | nag (nag : Nag)
deriving DecidableEq

namespace Word

/-- The word as it is written. -/
def text : Word → String
  | opening => "("
  | closing => ")"
  | comment text => "\x7b" ++ text ++ "\x7d"
  | san text _ => text
  | nag n => n.numeral

def isOpening : Word → Bool
  | opening => true
  | _ => false

def isClosing : Word → Bool
  | closing => true
  | _ => false

/-- The comment, if there is one. -/
def ofComment? : Option String → List Word
  | some text => [comment text]
  | none => []

/-- The bytes of words written one after the other. A blank stands in front of each, but not inside
a parenthesis; `blank` says whether one stands in front of the first. -/
def spell (blank : Bool) : List Word → List UInt8
  | [] => []
  | m :: ms =>
    (if blank && !m.isClosing then [Byte.space] else []) ++ utf8 m.text ++ spell (!m.isOpening) ms

/-- The word that is written for this one in a format: for a glyph what the format has for it,
spelled like a move, and otherwise the word itself. -/
def inFormat (format : NagFormat) : Word → Word
  | nag n => san (n.render format) false
  | w => w

/-- The format of glyphs does not matter for opening parentheses. -/
@[simp] theorem isOpening_inFormat (format : NagFormat) (w : Word) :
    (w.inFormat format).isOpening = w.isOpening := by
  cases w <;> rfl

/-- Nor does it for closing ones. -/
@[simp] theorem isClosing_inFormat (format : NagFormat) (w : Word) :
    (w.inFormat format).isClosing = w.isClosing := by
  cases w <;> rfl

/-- In the numeric format all words are written as they are. -/
theorem text_inFormat_numeric (w : Word) : (w.inFormat .numeric).text = w.text := by
  cases w <;> rfl

/-- By number glyphs are spelled as they are. -/
theorem spell_inFormat_numeric (blank : Bool) (words : List Word) :
    spell blank (words.map (inFormat .numeric)) = spell blank words := by
  induction words generalizing blank with
  | nil => rfl
  | cons w words ih =>
    rw [List.map_cons, spell, spell, ih, text_inFormat_numeric, isOpening_inFormat,
      isClosing_inFormat]

end Word

mutual

/-- The words of a line in the order they are written. -/
def Outline.words : Outline → List Word
  | ⟨comment, moves⟩ => Word.ofComment? comment ++ movesWords moves

def movesWords : List OutlineMove → List Word
  | [] => []
  | m :: ms => m.words ++ movesWords ms

def OutlineMove.words : OutlineMove → List Word
  | ⟨san, wellFormed, nags, comment, variations⟩ =>
    .san san wellFormed :: (nags.map .nag ++ (Word.ofComment? comment ++ branchesWords variations))

/-- The words of parenthesised lines. -/
def branchesWords : List Outline → List Word
  | [] => []
  | o :: os => .opening :: (o.words ++ .closing :: branchesWords os)

end

/-- The comments of a line and of all that branches from it. -/
def Outline.comments (o : Outline) : List String :=
  o.words.filterMap fun
    | .comment text => some text
    | _ => none

/-- A comment among the words is a comment of the outline. -/
theorem Outline.mem_comments {o : Outline} {text : String} (h : .comment text ∈ o.words) :
    text ∈ o.comments :=
  List.mem_filterMap.2 ⟨.comment text, h, rfl⟩

/-- A comment of the outline is among its words. -/
theorem Outline.comment_mem_words {o : Outline} {text : String} (h : text ∈ o.comments) :
    .comment text ∈ o.words := by
  obtain ⟨w, hw, htext⟩ := List.mem_filterMap.1 h
  cases w with
  | comment text =>
    cases htext
    exact hw
  | _ => cases htext

/-- The words of moves are written one move behind the other. -/
theorem movesWords_eq_flatMap (ms : List OutlineMove) :
    movesWords ms = ms.flatMap OutlineMove.words := by
  induction ms with
  | nil => rw [movesWords, List.flatMap_nil]
  | cons m ms ih => rw [movesWords, ih, List.flatMap_cons]

/-- Each branch is written in parentheses. -/
theorem branchesWords_eq_flatMap (os : List Outline) :
    branchesWords os = os.flatMap fun o => .opening :: (o.words ++ [.closing]) := by
  induction os with
  | nil => rw [branchesWords, List.flatMap_nil]
  | cons o os ih =>
    rw [branchesWords, ih, List.flatMap_cons, List.cons_append, List.append_assoc]
    rfl

/-! ## Writing words -/

namespace Variation

namespace Page

/-- Writes a word of any kind. -/
def put (p : Page) : Word → Page
  | .opening => p.enter
  | .closing => p.leave
  | m => p.word m.text

/-- Words are joined by blanks. -/
theorem word_intercalate (p : Page) (first : String) (rest : List String) :
    p.word (" ".intercalate (first :: rest)) = rest.foldl word (p.word first) := by
  induction rest generalizing p first with
  | nil => rw [String.intercalate_singleton, List.foldl_nil]
  | cons next rest ih =>
    have hword (w₁ w₂ : String) : p.word (w₁ ++ " " ++ w₂) = (p.word w₁).word w₂ := by
      cases hblank : p.blank <;> simp [word, hblank, String.append_assoc]
    rw [String.intercalate_cons_cons, hword, ih, List.foldl_cons]

/-- Words that are put on a page are spelled behind what stands there. -/
theorem utf8_foldl_put (p : Page) (ms : List Word) :
    utf8 (ms.foldl put p).text = utf8 p.text ++ Word.spell p.blank ms := by
  induction ms generalizing p with
  | nil => rw [List.foldl_nil, Word.spell, List.append_nil]
  | cons m ms ih =>
    have hput : (p.put m).blank = !m.isOpening ∧ utf8 (p.put m).text = utf8 p.text ++
        ((if p.blank && !m.isClosing then [Byte.space] else []) ++ utf8 m.text) := by
      have hspace : utf8 " " = [Byte.space] := by decide
      cases m with
      | closing =>
        refine ⟨rfl, ?_⟩
        rw [put, leave, utf8_append, Word.isClosing, Bool.not_true, Bool.and_false]
        rfl
      | _ =>
        refine ⟨rfl, ?_⟩
        cases hblank : p.blank <;>
          simp [put, enter, word, hblank, utf8_append, hspace, Word.isClosing, Word.text]
    rw [List.foldl_cons, ih, Word.spell, hput.1, hput.2]
    simp only [List.append_assoc]

/-- A comment is put as one word, if there is one. -/
theorem comment_eq (p : Page) (format : NagFormat) (text : Option String) :
    p.comment text = ((Word.ofComment? text).map (Word.inFormat format)).foldl put p := by
  cases text with
  | none => rfl
  | some text => rfl

/-- A move is put with its glyphs and its comment. -/
theorem move_eq (p : Page) (format : NagFormat) (m : Move) :
    p.move format m = ((Word.san m.san m.wellFormed :: (m.nags.toList.map Word.nag ++
      Word.ofComment? m.comment)).map (Word.inFormat format)).foldl put p := by
  have hnags (q : Page) : (if m.nags.isEmpty then q
      else q.word (" ".intercalate (m.nags.toList.map (·.render format)))) =
      ((m.nags.toList.map Word.nag).map (Word.inFormat format)).foldl put q := by
    rw [← Array.isEmpty_toList, List.foldl_map, List.foldl_map]
    cases m.nags.toList with
    | nil => rfl
    | cons nag nags =>
      rw [List.map_cons, List.isEmpty_cons, if_neg Bool.false_ne_true, word_intercalate,
        List.foldl_map]
      rfl
  rw [List.map_cons, List.map_append, List.foldl_cons, List.foldl_append, ← hnags, ← comment_eq]
  rfl

end Page

/-- Whatever does with each step what writing does with it, and with moves what writing does with
the first of them, its alternatives and the moves behind it, writes all the steps. -/
theorem writeSteps_eq_foldl {format : NagFormat} {perform : Page → WriteStep → Page}
    (henter : ∀ page v, perform page (.enter v) = page.enter.comment v.comment)
    (hleave : ∀ page, perform page .leave = page.leave)
    (hnil : ∀ page, perform page (.moves []) = page)
    (hcons : ∀ page m ms, perform page (.moves (m :: ms)) =
      perform ((WriteStep.alternatives m).foldl perform (page.move format m)) (.moves ms))
    (page : Page) (steps : List WriteStep) :
    writeSteps format page steps = steps.foldl perform page := by
  fun_induction writeSteps format page steps with
  | case1 page => rfl
  | case2 page v rest ih => rw [ih, List.foldl_cons, henter]
  | case3 page rest ih => rw [ih, List.foldl_cons, hleave]
  | case4 page rest ih => rw [ih, List.foldl_cons, hnil]
  | case5 page m ms rest ih =>
    rw [ih, List.foldl_append, List.foldl_cons, List.foldl_cons, hcons]

/-- The words that a step writes. -/
def stepWords : WriteStep → List Word
  | .enter v => .opening :: Word.ofComment? v.comment
  | .moves ms => movesWords (movesOutline ms)
  | .leave => [.closing]

/-- A branch is written in parentheses. -/
theorem flatMap_branch (v : Variation) :
    (WriteStep.branch v).flatMap stepWords = .opening :: (v.outline.words ++ [.closing]) := by
  cases v
  simp [WriteStep.branch, stepWords, Variation.outline, Outline.words]

/-- The alternatives to a move are written as its branches. -/
theorem flatMap_alternatives (m : Move) :
    (WriteStep.alternatives m).flatMap stepWords =
      branchesWords (variationsOutline m.variations) := by
  unfold WriteStep.alternatives
  induction m.variations with
  | nil => rfl
  | cons v vs ih =>
    rw [List.flatMap_cons, List.flatMap_append, flatMap_branch, ih, variationsOutline,
      branchesWords, List.cons_append, List.append_assoc]
    rfl

/-- The steps write their words in order. -/
theorem writeSteps_eq (format : NagFormat) (page : Page) (steps : List WriteStep) :
    writeSteps format page steps =
      ((steps.flatMap stepWords).map (Word.inFormat format)).foldl Page.put page := by
  rw [List.foldl_map, List.foldl_flatMap]
  refine writeSteps_eq_foldl (fun page v => ?_) (fun page => rfl) (fun page => rfl)
    (fun page m ms => ?_) page steps
  · rw [← List.foldl_map, stepWords, List.map_cons, List.foldl_cons, ← Page.comment_eq]
    rfl
  · rw [Page.move_eq, List.foldl_map, ← List.foldl_flatMap, ← List.foldl_append,
      flatMap_alternatives, ← List.foldl_append]
    congr 1
    cases m
    simp [stepWords, movesOutline, movesWords, Move.outline, OutlineMove.words]

/-- A line is written as its words. -/
theorem utf8_write_inFormat (v : Variation) (format : NagFormat) :
    utf8 (v.write format) = Word.spell false (v.outline.words.map (Word.inFormat format)) := by
  have hsteps : (writeSteps format (Page.comment ⟨"", false⟩ v.comment) [.moves v.moves]) =
      (v.outline.words.map (Word.inFormat format)).foldl Page.put ⟨"", false⟩ := by
    rw [writeSteps_eq, Page.comment_eq _ format, ← List.foldl_append, ← List.map_append]
    cases v
    simp [stepWords, Variation.outline, Outline.words]
  rw [write, hsteps, Page.utf8_foldl_put]
  rfl

/-- A line is written as its words are spelled. -/
theorem utf8_write (v : Variation) :
    utf8 (v.write .numeric) = Word.spell false v.outline.words := by
  rw [utf8_write_inFormat, Word.spell_inFormat_numeric]

end Variation

end Scorebook
