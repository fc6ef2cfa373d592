import Scorebook.Proofs.Catalogue.Quiet
import Scorebook.Proofs.Moving

/-!
# Games moved along

The games of a text that stands behind another one are those of the text by itself, moved by the
length of what stands in front; so are the problems a scan runs into on its way. A scan looks
forward only, and what it remembers of the bytes it has passed is nothing but where a line begins.
-/

namespace Scorebook

/-- The game in a text that stands `d` bytes further on. Its number, its checksum and the verdict
on it stay. -/
def Entry.moved (d : Nat) (e : Entry) : Entry :=
  { e with tags := e.tags.moved d, movetext := e.movetext.moved d }

/-- The extent of movetext in a text that stands `d` bytes further on. -/
def MovetextExtent.moved (d : Nat) (extent : MovetextExtent) : MovetextExtent :=
  ⟨extent.last + d, extent.next + d, extent.problems.map (Problem.moved d)⟩

/-- What a scan comes upon in a text that stands `d` bytes further on. -/
def Item.moved (d : Nat) : Item → Item
  | .nothing => .nothing
  | .stray next => .stray (next + d)
  | .game entry next => .game (entry.moved d) (next + d)

namespace Text.Moved

variable {t u : Text} {d : Nat} (h : Moved t u d)

include h

/-- The checksum of a span is that of the moved span. -/
theorem checksum (s : Span) : u.checksum (s.moved d) = t.checksum s := by
  rw [Text.checksum, Text.checksum, h.word]

/-- Movetext is scanned alike, further on. -/
theorem movetextFrom (pos last : Nat) (problems : Array Problem) :
    u.movetextFrom (pos + d) (last + d) (problems.map (Problem.moved d)) =
      (t.movetextFrom pos last problems).moved d := by
  have hsize := h.size_eq
  have hproblems (pos : Nat) (problems : Array Problem) :
      problems.map (Problem.moved d) ++ (u.gap (pos + d)).problem?.toList =
        (problems ++ (t.gap pos).problem?.toList).map (Problem.moved d) := by
    apply Array.ext'
    rw [h.gap, Gap.moved, Array.toList_appendList, Array.toList_map, Array.toList_map,
      Array.toList_appendList, List.map_append]
    cases (t.gap pos).problem? <;> rfl
  fun_induction Text.movetextFrom t pos last problems with
  | case1 pos last problems gap _ hend =>
    have hend' : u.size ≤ gap.stop + d ∨ t.opensTag gap.stop = true := hend.imp_left (by omega)
    have hstop : (u.gap (pos + d)).stop = gap.stop + d := h.gap_stop pos
    rw [Text.movetextFrom, hproblems, hstop, h.opensTag, if_pos hend']
    simp only [MovetextExtent.moved, Array.toList_map]
    rfl
  | case2 pos last problems gap _ hend stop ih =>
    have hend' : ¬(u.size ≤ gap.stop + d ∨ t.opensTag gap.stop = true) :=
      fun hu => hend (hu.imp_left (by omega))
    have hstop : (u.gap (pos + d)).stop = gap.stop + d := h.gap_stop pos
    rw [Text.movetextFrom, hproblems, hstop, h.opensTag, if_neg hend', Nat.add_right_comm, h.seek]
    exact ih

/-- A game is scanned alike, further on. -/
theorem scanGame (strict : Bool) (start : Nat) :
    u.scanGame strict (start + d) =
      ((t.scanGame strict start).1.moved d, (t.scanGame strict start).2.1 + d,
        (t.scanGame strict start).2.2.map (Problem.moved d)) := by
  have hextent := h.movetextFrom (t.header strict start).next (t.header strict start).next #[]
  have hchecksum := h.checksum (t.header strict start).span
  rw [Array.map_empty] at hextent
  simp only [Text.scanGame, h.header, Header.moved, hextent, MovetextExtent.moved, hchecksum,
    Verdict.ofProblems_moved, Nat.add_max_add_right, List.map_append, Entry.moved]
  rfl

/-- The next game is looked for in the same place, further on. -/
theorem resync (pos : Nat) : u.resync (pos + d) = t.resync pos + d := by
  have hsize := h.size_eq
  have hnext : pos + d + 1 = pos + 1 + d := Nat.add_right_comm pos d 1
  fun_induction Text.resync t pos with
  | case1 pos hpos hbracket =>
    have hb : u[pos + d + 1]? = some t[pos + 1] := by
      rw [hnext]
      exact h.getElem? (getElem?_eq_some_iff.2 ⟨hpos, rfl⟩)
    rw [resync_of_getElem? hb, hnext, h.atLineStart_succ, if_pos hbracket]
  | case2 pos hpos hbracket ih =>
    have hb : u[pos + d + 1]? = some t[pos + 1] := by
      rw [hnext]
      exact h.getElem? (getElem?_eq_some_iff.2 ⟨hpos, rfl⟩)
    rw [resync_of_getElem? hb, hnext, h.atLineStart_succ, if_neg hbracket]
    exact ih (Nat.add_right_comm (pos + 1) d 1)
  | case3 pos hpos =>
    rw [resync_of_size_le (by omega), hsize]

/-- What stands in a place is found alike. -/
theorem itemAt (strict : Bool) (pos : Nat) :
    u.itemAt strict (pos + d) =
      ((t.itemAt strict pos).1.moved d, (t.itemAt strict pos).2.map (Problem.moved d)) := by
  rw [Text.itemAt, Text.itemAt, h.getElem?_eq]
  cases t[pos]? with
  | none => rfl
  | some b =>
    by_cases hbracket : b = Byte.openBracket
    · simp only [if_pos hbracket, h.scanGame, Item.moved]
    · simp only [if_neg hbracket, h.resync, h.lineEnd, Item.moved, Nat.add_min_add_right]
      rfl

/-- What comes next is found alike. -/
theorem nextItem (strict : Bool) (pos : Nat) :
    u.nextItem strict (pos + d) =
      ((t.nextItem strict pos).1.moved d, (t.nextItem strict pos).2.map (Problem.moved d)) := by
  rw [Text.nextItem, Text.nextItem, h.gap]
  simp only [Gap.moved, h.itemAt, List.map_append]
  cases (t.gap pos).problem? <;> rfl

/-- The same games are found, further on. -/
theorem gamesFrom (strict : Bool) (pos : Nat) :
    u.gamesFrom strict (pos + d) =
      (t.gamesFrom strict pos).map fun (entry, next) => (entry.moved d, next + d) := by
  fun_induction Text.gamesFrom t strict pos with
  | case1 pos problems hitem =>
    have hmoved := h.nextItem strict pos
    rw [hitem] at hmoved
    exact gamesFrom_of_nothing hmoved
  | case2 pos next problems hitem ih =>
    have hmoved := h.nextItem strict pos
    rw [hitem] at hmoved
    rw [gamesFrom_of_stray hmoved, ih]
  | case3 pos entry next problems hitem ih =>
    have hmoved := h.nextItem strict pos
    rw [hitem] at hmoved
    rw [gamesFrom_of_game hmoved, ih]
    rfl

end Text.Moved

end Scorebook
