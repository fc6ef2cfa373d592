import Scorebook.Proofs.Game.Tags
import Scorebook.Proofs.Header.Failing

/-!
# The header problems of a game

A game is read from the bytes in front of its movetext, and what is wrong with its tag pairs was
found once before, when it was catalogued. If all of it is in sight there, reading the game finds
the same problems at the same places. Otherwise it may find others: where a pair lacks its value and
a comment of the movetext follows, the value is missed behind the comment first, and in front of it
later.
-/

namespace Scorebook

/-- What cataloguing found wrong with the tag pairs of a game. A header has one more problem if the
gap behind its last pair is never closed. -/
def Text.pairProblems (t : Text) (strict : Bool) (e : Entry) : List Problem :=
  let problems := (t.header strict e.tags.start).problems
  problems.take (problems.length - (t.gap e.tags.stop).problem?.toList.length)

/-- All that is wrong with the tag pairs of the game is in sight in front of its movetext. -/
def Entry.ShowsProblems (e : Entry) (t : Text) (strict : Bool) : Prop :=
  ∀ p ∈ t.pairProblems strict e, t.inSight e.movetext.start p = true

instance (e : Entry) (t : Text) (strict : Bool) : Decidable (e.ShowsProblems t strict) :=
  inferInstanceAs (Decidable (∀ p ∈ t.pairProblems strict e, t.inSight e.movetext.start p = true))

variable {t : Text} {strict : Bool} {e : Entry}

/-- The problems of the pairs come first. -/
theorem Text.header_problems_eq (h : e ∈ t.games strict) :
    (t.header strict e.tags.start).problems =
        t.pairProblems strict e ++ (t.gap e.tags.stop).problem?.toList ∧
      (e.ShowsProblems t strict →
        ((t.upTo (max e.movetext.start e.tags.stop)).header strict e.tags.start).problems.map
            Problem.identity =
          (t.pairProblems strict e).map Problem.identity) := by
  obtain ⟨hb, hscan⟩ := scanGame_of_mem_games h
  obtain ⟨htags, hmovetext⟩ := header_of_scanGame hb hscan
  have hstart : (t.header strict e.tags.start).movetext = e.movetext.start :=
    congrArg (·.movetext.start) hscan
  obtain ⟨found, hfound, hread⟩ := header_problems_upTo strict hb
  rw [htags] at hfound
  have hpairs : t.pairProblems strict e = found := by
    simp only [pairProblems, hfound, List.length_append, Nat.add_sub_cancel, List.take_left']
  rw [Entry.ShowsProblems, hpairs, ← hmovetext]
  rw [hstart] at hread ⊢
  exact ⟨hfound, hread⟩

/-- A game read from its place has the header problems it was catalogued with. -/
theorem Game.headerProblems_read {buffer : Buffer} (h : e ∈ buffer.text.games strict)
    (hshow : e.ShowsProblems buffer.text strict) (n : Nat) :
    (Game.read buffer strict n e).headerProblems.map Problem.identity =
      (buffer.text.pairProblems strict e).map Problem.identity :=
  (Text.header_problems_eq h).2 hshow

end Scorebook
