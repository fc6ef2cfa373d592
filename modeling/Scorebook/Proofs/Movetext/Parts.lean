import Scorebook.Movetext.Score

/-!
# The parts of a line

A line of movetext consists of parts: comments, move numbers, moves, glyphs and variations that are
closed already. `Descent.line` is the line that consists of given parts. It is cut at its moves, and
the stretch behind a move holds everything that belongs to the move. Reading the parts one by one
into an `OpenLine` comes to the same, `LineReader.close_takeAll_new`.
-/

namespace Scorebook

/-! ## Lines cut at their moves -/

/-- What stands in a line at its own level. A closed variation is one part. -/
inductive LinePart
  | comment (text : String)
  | number (n : Nat)
  | move (san : String) (span : Span) (wellFormed : Bool)
  | nag (nag : Nag)
  | branch (v : Variation)

namespace LinePart

def isMove : LinePart → Bool
  | move .. => true
  | _ => false

def isBranch : LinePart → Bool
  | branch _ => true
  | _ => false

/-- The comment that has some text. -/
def comment? : LinePart → Option String
  | comment text => if text.isEmpty then none else some text
  | _ => none

def number? : LinePart → Option Nat
  | number n => some n
  | _ => none

def nag? : LinePart → Option Nag
  | nag n => some n
  | _ => none

def branch? : LinePart → Option Variation
  | branch v => some v
  | _ => none

end LinePart

namespace Descent

/-- The parts in front of the first move. -/
def stretch (parts : List LinePart) : List LinePart :=
  parts.takeWhile (!·.isMove)

/-- The comments of a stretch, joined by single blanks. -/
def comment (parts : List LinePart) : Option String :=
  match (stretch parts).filterMap LinePart.comment? with
  | [] => none
  | texts => some (" ".intercalate texts)

def nags (parts : List LinePart) : List Nag :=
  (stretch parts).filterMap LinePart.nag?

def branches (parts : List LinePart) : List Variation :=
  (stretch parts).filterMap LinePart.branch?

/-- The number written for a move, given the parts between it and the move before it, the nearest
first. A parenthesis cuts a number off. -/
def indicated (before : List LinePart) : Option Nat :=
  (before.takeWhile (!·.isBranch)).findSome? LinePart.number?

/-- The moves of a line from its parts. The next move is the one of this number, and `before` are
the parts passed since the last, the nearest first. -/
def moves (number : Nat) (before : List LinePart) : List LinePart → List Move
  | [] => []
  | .move san span wellFormed :: rest =>
    ⟨san, span, number, indicated before, comment rest, (nags rest).toArray, wellFormed,
      branches rest⟩ :: moves (oneMore number) [] rest
  | part :: rest => moves number (part :: before) rest

/-- The line that consists of these parts. -/
def line (id depth : Nat) (span : Span) (parts : List LinePart) : Variation :=
  ⟨id, depth, span, comment parts, moves 1 [] parts, branches parts⟩
/-! ## One line -/

/-- The texts of the comments of a stretch. -/
def texts (parts : List LinePart) : List String :=
  (stretch parts).filterMap LinePart.comment?

section Cons

variable {part : LinePart} {ps : List LinePart} (h : part.isMove = false)

include h

/-- In front of the first move all parts belong to the line. -/
theorem filterMap_stretch_cons {α : Type} (f : LinePart → Option α) :
    (stretch (part :: ps)).filterMap f = (f part).toList ++ (stretch ps).filterMap f := by
  rw [stretch, List.takeWhile_cons_of_pos (by simp [h]), List.filterMap_cons]
  cases f part <;> rfl

/-- The comments of the parts, one by one. -/
theorem texts_cons : texts (part :: ps) = part.comment?.toList ++ texts ps :=
  filterMap_stretch_cons h _

theorem nags_cons : nags (part :: ps) = part.nag?.toList ++ nags ps :=
  filterMap_stretch_cons h _

theorem branches_cons : branches (part :: ps) = part.branch?.toList ++ branches ps :=
  filterMap_stretch_cons h _

/-- A part that is no move belongs to the move in front of it. -/
theorem moves_cons (number : Nat) (before : List LinePart) :
    moves number before (part :: ps) = moves number (part :: before) ps := by
  cases part with
  | move => cases h
  | _ => rfl

end Cons

/-- A number in front of a variation is not about the move behind it. -/
theorem indicated_branch (v : Variation) (before : List LinePart) :
    indicated (.branch v :: before) = none :=
  rfl

/-- The last number in front of a move is about it. -/
theorem indicated_number (n : Nat) (before : List LinePart) :
    indicated (.number n :: before) = some n :=
  rfl

/-- A comment between them makes no difference. -/
theorem indicated_comment (text : String) (before : List LinePart) :
    indicated (.comment text :: before) = indicated before :=
  rfl

/-- Nor does a glyph. -/
theorem indicated_nag (nag : Nag) (before : List LinePart) :
    indicated (.nag nag :: before) = indicated before :=
  rfl

/-- Comments are joined with blanks. -/
theorem foldl_joinComment_some (texts : List String) (text : String) :
    texts.foldl joinComment (some text) = some (" ".intercalate (text :: texts)) := by
  induction texts generalizing text with
  | nil => rw [List.foldl_nil, String.intercalate_singleton]
  | cons next texts ih =>
    rw [List.foldl_cons, joinComment, ih, String.intercalate_cons_cons]
    cases texts with
    | nil => rw [String.intercalate_singleton, String.intercalate_singleton]
    | cons => simp only [String.intercalate_cons_cons, String.append_assoc]

/-- Joining comments one by one comes to the same as joining them all. -/
theorem foldl_joinComment_texts (ps : List LinePart) :
    (texts ps).foldl joinComment none = comment ps := by
  unfold comment
  rw [texts]
  split
  · next hnil => rw [hnil]; rfl
  · next hcons =>
    obtain ⟨text, rest, heq⟩ := List.exists_cons_of_ne_nil hcons
    rw [heq]
    exact foldl_joinComment_some rest text

end Descent

open Descent

/-- A line that is being read, and the move number read last in it. -/
structure LineReader where
  line : OpenLine
  number : Option Nat

namespace LineReader

/-- Reads one part. -/
def take (r : LineReader) : LinePart → LineReader
  | .comment text => { r with line := r.line.addComment text }
  | .number n => { r with number := some n }
  | .move san span wellFormed => ⟨r.line.addMove san span r.number wellFormed, none⟩
  | .nag nag => { r with line := (r.line.addNag? nag).getD r.line }
  | .branch v => ⟨r.line.addBranch v, none⟩

/-- Reads parts in order. -/
def takeAll (r : LineReader) (parts : List LinePart) : LineReader :=
  parts.foldl take r

variable {r : LineReader} {m : Move} {before : List LinePart} {part : LinePart}

/-- Behind a move, a part is added to the move. -/
theorem take_of_last (hlast : r.line.last = some m) (hnumber : r.number = indicated before)
    (hpart : part.isMove = false) :
    r.take part =
      ⟨{ r.line with
          last := some { m with
            comment := part.comment?.toList.foldl joinComment m.comment
            nags := m.nags ++ part.nag?.toArray }
          branches := part.branch?.toList ++ r.line.branches },
        indicated (part :: before)⟩ := by
  obtain ⟨⟨id, depth, start, comment, moves, last, branches, strays⟩, number⟩ := r
  obtain rfl : last = some m := hlast
  obtain rfl : number = indicated before := hnumber
  cases m
  cases part with
  | move => cases hpart
  | comment text =>
    simp only [take, OpenLine.addComment, LinePart.comment?]
    split <;> simp [LinePart.nag?, LinePart.branch?, indicated_comment]
  | number n => simp [take, LinePart.comment?, LinePart.nag?, LinePart.branch?, indicated_number]
  | nag nag =>
    simp [take, OpenLine.addNag?, LinePart.comment?, LinePart.nag?, LinePart.branch?, indicated_nag]
  | branch v =>
    simp [take, OpenLine.addBranch, LinePart.comment?, LinePart.nag?, LinePart.branch?,
      indicated_branch]

/-- In front of the first move, a part is added to the line itself. -/
theorem take_of_none (hlast : r.line.last = none) (hnumber : r.number = indicated before)
    (hpart : part.isMove = false) :
    r.take part =
      ⟨{ r.line with
          comment := part.comment?.toList.foldl joinComment r.line.comment
          branches := part.branch?.toList ++ r.line.branches },
        indicated (part :: before)⟩ := by
  obtain ⟨⟨id, depth, start, comment, moves, last, branches, strays⟩, number⟩ := r
  obtain rfl : last = none := hlast
  obtain rfl : number = indicated before := hnumber
  cases part with
  | move => cases hpart
  | comment text =>
    simp only [take, OpenLine.addComment, LinePart.comment?]
    split <;> simp [LinePart.branch?, indicated_comment]
  | number n => simp [take, LinePart.comment?, LinePart.branch?, indicated_number]
  | nag nag => simp [take, OpenLine.addNag?, LinePart.comment?, LinePart.branch?, indicated_nag]
  | branch v =>
    simp [take, OpenLine.addBranch, LinePart.comment?, LinePart.branch?, indicated_branch]

/-- What becomes of a line whose last move is `m` when these parts follow: those up to the next move
belong to `m`. -/
theorem close_takeAll_of_last (ps : List LinePart) (stop : Nat) (hlast : r.line.last = some m)
    (hnumber : r.number = indicated before) :
    (r.takeAll ps).line.close stop =
      ⟨r.line.id, r.line.depth, ⟨r.line.start, stop⟩, r.line.comment,
        r.line.moves.reverse ++
          { m with
            comment := (texts ps).foldl joinComment m.comment
            nags := m.nags ++ (nags ps).toArray
            variations := r.line.branches.reverse ++ branches ps } ::
          moves (oneMore m.number) before ps,
        r.line.strays⟩ := by
  -- By induction on the parts: a move settles the last one, anything else is added to it.
  induction ps generalizing r m before with
  | nil =>
    simp [takeAll, OpenLine.close, OpenLine.settle, hlast, texts, stretch, nags, branches, moves]
  | cons part ps ih =>
    show ((r.take part).takeAll ps).line.close stop = _
    cases hpart : part.isMove with
    | false =>
      have hbranch : part.branch?.toList.reverse = part.branch?.toList := by
        cases part.branch? <;> rfl
      have hnag : (part.nag?.toList ++ nags ps).toArray =
          part.nag?.toArray ++ (nags ps).toArray := by
        cases part.nag? <;> simp
      rw [take_of_last hlast hnumber hpart, ih rfl rfl]
      simp [texts_cons hpart, nags_cons hpart, branches_cons hpart, moves_cons hpart, hbranch, hnag]
    | true =>
      cases part with
      | move san span wellFormed =>
        rw [ih (r := r.take (.move san span wellFormed)) rfl (show _ = indicated [] from rfl),
          foldl_joinComment_texts]
        simp [texts, nags, branches, moves, stretch, LinePart.isMove, take, OpenLine.addMove,
          OpenLine.settle, hlast, OpenLine.count, hnumber]
      | _ => cases hpart

/-- What becomes of a line without moves when these parts follow: those up to the first move belong
to the line. -/
theorem close_takeAll_of_none (ps : List LinePart) (stop : Nat) (hlast : r.line.last = none)
    (hmoves : r.line.moves = []) (hnumber : r.number = indicated before) :
    (r.takeAll ps).line.close stop =
      ⟨r.line.id, r.line.depth, ⟨r.line.start, stop⟩,
        (texts ps).foldl joinComment r.line.comment, moves 1 before ps,
        r.line.branches.reverse ++ branches ps⟩ := by
  -- By induction on the parts, up to the first move.
  induction ps generalizing r before with
  | nil =>
    simp [takeAll, OpenLine.close, OpenLine.settle, hlast, hmoves, texts, stretch, branches, moves]
  | cons part ps ih =>
    show ((r.take part).takeAll ps).line.close stop = _
    cases hpart : part.isMove with
    | false =>
      have hbranch : part.branch?.toList.reverse = part.branch?.toList := by
        cases part.branch? <;> rfl
      rw [take_of_none hlast hnumber hpart]
      refine (ih ?_ ?_ (show _ = indicated (part :: before) from rfl)).trans ?_
      · exact hlast
      · exact hmoves
      simp [texts_cons hpart, branches_cons hpart, moves_cons hpart, hbranch]
    | true =>
      cases part with
      | move san span wellFormed =>
        rw [close_takeAll_of_last (r := r.take (.move san span wellFormed)) ps stop rfl
          (show _ = indicated [] from rfl), foldl_joinComment_texts]
        simp [texts, nags, branches, moves, stretch, LinePart.isMove, take, OpenLine.addMove,
          OpenLine.settle, hlast, hmoves, OpenLine.count, hnumber]
      | _ => cases hpart

/-- A line read part by part is the line that consists of the parts. -/
theorem close_takeAll_new (id depth start stop : Nat) (ps : List LinePart) :
    (takeAll ⟨.new id depth start, none⟩ ps).line.close stop =
      Descent.line id depth ⟨start, stop⟩ ps := by
  rw [close_takeAll_of_none ps stop rfl rfl (show _ = indicated [] from rfl), Descent.line,
    ← foldl_joinComment_texts]
  rfl

/-- Parts are taken one by one. -/
theorem takeAll_append (r : LineReader) (ps qs : List LinePart) :
    r.takeAll (ps ++ qs) = (r.takeAll ps).takeAll qs :=
  List.foldl_append

/-- A line stays in its place while it is read. -/
theorem take_depth (r : LineReader) (part : LinePart) :
    (r.take part).line.depth = r.line.depth := by
  cases part with
  | comment text =>
    simp only [take, OpenLine.addComment]
    split
    · rfl
    · split <;> rfl
  | number n => rfl
  | move san span wellFormed =>
    simp only [take, OpenLine.addMove, OpenLine.settle]
    split <;> rfl
  | nag nag =>
    simp only [take, OpenLine.addNag?]
    cases r.line.last <;> rfl
  | branch v => rfl

/-- Taking parts leaves the depth of the line. -/
theorem takeAll_depth (r : LineReader) (ps : List LinePart) :
    (r.takeAll ps).line.depth = r.line.depth := by
  induction ps generalizing r with
  | nil => rfl
  | cons part ps ih => exact (ih (r.take part)).trans (r.take_depth part)

end LineReader

end Scorebook
