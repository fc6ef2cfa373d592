import Scorebook.Game
import Scorebook.Proofs.Guarded.Movetext
import Scorebook.Proofs.Movetext.Ranges

/-!
# Reading games with every step guarded

A game is read at the place an entry gives for it. If header and movetext lie in the text there, no
step of reading it leaves the text, what is found points into the text, and the texts that the game
gives later on, its movetext and those of its variations, are ranges of the text as well. The entry
need not be of this text: what the bytes at its place are does not matter.
-/

namespace Scorebook

/-- As `RawTag.decode`. -/
def RawTag.guardedDecode (t : Text) (tag : RawTag) : Option TagPair := do
  let name ← t.read? tag.name
  let value ← t.word? tag.value
  some ⟨name, Scorebook.decode (unescape value).toByteArray⟩

namespace Game

/-- As `Game.read`. The text in front of the movetext is as much of it as there is. -/
def guardedRead (buffer : Buffer) (strict : Bool) (n : Nat) (entry : Entry) : Option Game := do
  let seen := buffer.text.upTo (max entry.movetext.start entry.tags.stop)
  let header ← seen.guardedHeader strict entry.tags.start
  let tags ← header.tags.mapM (RawTag.guardedDecode seen)
  let score ← buffer.text.guardedScore strict entry.movetext
  some { number := n, entry, buffer, tags, headerProblems := header.problems, score }

/-- As `Game.movetext`. -/
def guardedMovetext (g : Game) : Option String :=
  let span := g.entry.movetext
  let stop := (g.score.marker.map fun (_, marker) => marker.start).getD span.stop
  g.buffer.text.readTrimmed? ⟨span.start, stop⟩

/-- As `Game.variationText`. -/
def guardedVariationText (g : Game) (v : Variation) : Option String :=
  g.buffer.text.readTrimmed? v.span

end Game

/-- Header and movetext lie in the text. -/
structure Entry.LiesIn (e : Entry) (t : Text) : Prop where
  tags : t.Covers e.tags
  movetext : t.Covers e.movetext

/-- The game was read at a place inside its text. -/
def Game.ReadInside (g : Game) : Prop :=
  ∃ buffer strict n entry, entry.LiesIn buffer.text ∧ g = Game.read buffer strict n entry

/-! ## No guard fails -/

/-- The parts of a pair are in the text. -/
theorem Text.Pair.guardedDecode_eq {t : Text} {start quote bracket : Nat} {tag : RawTag}
    (h : t.Pair start tag quote bracket) (hstart : start < t.size) :
    tag.guardedDecode t = some (tag.decode t) := by
  have hname := h.name_lt hstart
  have hquote := h.name_le_quote
  have hopen := h.value_start
  have hvalue := h.quote_lt_stop
  have hstop := h.stop_lt_bracket
  have hsize := h.bracket_lt_size
  have hnames : t.Covers tag.name := ⟨Nat.le_of_lt hname, by omega⟩
  have hvalues : t.Covers tag.value := ⟨by omega, by omega⟩
  rw [RawTag.guardedDecode, read?_eq hnames, word?_eq hvalues]
  rfl

namespace Game

variable {buffer : Buffer} {entry : Entry} {strict : Bool} {g : Game} {p : Problem}

/-- A game whose entry lies in the text is read without a check failing. -/
theorem guardedRead_eq (h : entry.LiesIn buffer.text) (strict : Bool) (n : Nat) :
    guardedRead buffer strict n entry = some (Game.read buffer strict n entry) := by
  obtain ⟨⟨htags, htagsSize⟩, -, hmovetext⟩ := h
  have hstart : entry.tags.start ≤
      (buffer.text.upTo (max entry.movetext.start entry.tags.stop)).size := by
    rw [Text.size_upTo]
    omega
  generalize hseen : buffer.text.upTo (max entry.movetext.start entry.tags.stop) = seen at hstart
  have hdecode : (seen.header strict entry.tags.start).tags.mapM (RawTag.guardedDecode seen) =
      some ((seen.header strict entry.tags.start).tags.map (·.decode seen)) := by
    refine Text.mapM_eq_some (Text.forall_mem_headerFrom_tags ?_ (List.forall_mem_nil _))
    intro pos tag next hpos hpair
    obtain ⟨quote, bracket, hparts, -⟩ := Text.tagPair_eq_ok_iff.1 hpair
    exact hparts.guardedDecode_eq hpos
  simp only [guardedRead, read, hseen]
  rw [Text.guardedHeader_eq strict hstart]
  simp only [Option.bind_eq_bind, Option.bind_some]
  rw [hdecode, Option.bind_some, Text.guardedScore_eq strict hmovetext]
  rfl

namespace ReadInside

variable (h : g.ReadInside)

include h

/-- What was found in the game points into its text. -/
theorem pointsInto (hp : p ∈ g.problems) : p.PointsInto g.buffer.text := by
  obtain ⟨buffer, strict, n, entry, ⟨-, hmovetext⟩, rfl⟩ := h
  rcases List.mem_append.1 hp with hheader | hscore
  · exact (Text.pointsInto_of_header hheader).of_upTo
  · exact Text.pointsInto_of_score hmovetext.2 hscore

/-- Its movetext can be sliced out. -/
theorem guardedMovetext_eq : g.guardedMovetext = some g.movetext := by
  obtain ⟨buffer, strict, n, entry, ⟨-, hmovetext⟩, rfl⟩ := h
  refine Text.readTrimmed?_eq ?_
  have hmarker := (Text.score_liesIn strict hmovetext).marker
  -- The marker starts behind the start of the movetext.
  show buffer.text.Covers ⟨entry.movetext.start, Option.getD
    ((buffer.text.score strict entry.movetext).marker.map fun (_, marker) => marker.start) _⟩
  cases hfound : (buffer.text.score strict entry.movetext).marker with
  | none => exact hmovetext
  | some found => exact hmarker found.1 found.2 hfound

/-- So can the text of any of its lines. -/
theorem guardedVariationText_eq {b : Variation.Branch} (hb : b ∈ g.score.mainLine.breadthFirst) :
    g.guardedVariationText b.variation = some (g.variationText b.variation) := by
  obtain ⟨buffer, strict, n, entry, ⟨-, hmovetext⟩, rfl⟩ := h
  exact Text.readTrimmed?_eq ((Text.score_liesIn strict hmovetext).mainLine.covers b hb)

end ReadInside

end Game

end Scorebook
