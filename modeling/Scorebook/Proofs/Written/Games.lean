import Scorebook.Proofs.Catalogue.Quiet
import Scorebook.Proofs.Catalogue.Tiling
import Scorebook.Proofs.Written.Tags

/-!
# Written games are found

Movetext that holds no comment and no bracket is stepped over to the end of its line, and behind it
either the next header is recognized or the text is over. So cataloguing finds exactly the games
that were written, where they were written, and runs into no problem.
-/

namespace Scorebook

namespace Text

variable {t : Text} {strict : Bool} {start stop pos next : Nat}

/-! ## One line of movetext -/

/-- The bytes of `[start, stop)` open no comment, no escaped line and no header, the last of them is
no blank, and the line ends behind it. -/
structure PlainLine (t : Text) (start stop : Nat) : Prop where
  plain : ∀ i, start ≤ i → i < stop → ∃ b, t[i]? = some b ∧ b ≠ Byte.openBracket ∧
    b ≠ Byte.openBrace ∧ b ≠ Byte.semicolon ∧ b ≠ Byte.percent
  last : ∃ b, t[stop - 1]? = some b ∧ Byte.isBlank b = false
  feed : t[stop]? = some Byte.newline

/-- Inside the line a gap is made of blanks and followed by a token. -/
theorem PlainLine.gap_eq (h : PlainLine t start stop) (hle : start ≤ pos) (hlt : pos < stop) :
    ∃ q, pos ≤ q ∧ q < stop ∧ t.gap pos = ⟨q, #[], none⟩ ∧ t.opensTag q = false := by
  obtain ⟨c, hc, hcblank⟩ := h.last
  have hsize := lt_size_of_getElem? hc
  have hlow : pos ≤ t.seek (!Byte.isBlank ·) pos := le_seek (by omega)
  have hhigh : t.seek (!Byte.isBlank ·) pos ≤ stop - 1 :=
    seek_le_of_match (by omega) hc (by simp [hcblank])
  -- The first byte that is no blank stands in the line, and it begins no gap.
  obtain ⟨b, hb, hbracket, hbrace, hsemicolon, hpercent⟩ :=
    h.plain _ (Nat.le_trans hle hlow) (by omega)
  have hblank : Byte.isBlank b = false := by
    have hin : t.seek (!Byte.isBlank ·) pos < t.size := by omega
    obtain ⟨d, hd, hdblank⟩ := match_of_seek_lt hin
    rw [hb] at hd
    cases hd
    simpa using hdblank
  have hgap : t.inGap (t.seek (!Byte.isBlank ·) pos) = false := by
    simp [inGap_of_getElem? hb, hblank, hbrace, hsemicolon, hpercent]
  refine ⟨_, hlow, by omega, ?_, opensTag_eq_false hb hbracket⟩
  rw [← gap_of_not_inGap hgap]
  apply gap_of_blanks hlow
  intro i hi hlt
  obtain ⟨d, hd, -⟩ := h.plain i (by omega) (by omega)
  have hnot := not_of_lt_seek hi hlt hd
  rw [hd, Option.any_some]
  simpa using hnot

/-- Movetext on one line is stepped over as a whole. -/
theorem PlainLine.movetextFrom_eq (h : PlainLine t start stop)
    (hgap : t.gap stop = ⟨next, #[], none⟩) (hboundary : t.size ≤ next ∨ t.opensTag next = true)
    (hlow : start ≤ pos) (hhigh : pos ≤ stop) {last : Nat} (hlast : last = pos)
    (problems : Array Problem) :
    t.movetextFrom pos last problems = ⟨stop, next, problems.toList⟩ := by
  -- By the recursion of the scan, which cannot end within the line.
  fun_induction movetextFrom t pos last problems with
  | case1 pos last problems gap collected hend =>
    rcases Nat.eq_or_lt_of_le hhigh with rfl | hlt
    · simp only [gap, collected, hgap, hlast]
      simp
    · -- The line is not over, so neither is the text, and there is no header.
      obtain ⟨q, hle, hq, hgapq, hopens⟩ := h.gap_eq hlow hlt
      have hsize := lt_size_of_getElem? h.feed
      have hstop : gap.stop = q := by rw [show gap = _ from hgapq]
      rw [hstop, hopens] at hend
      rcases hend with hend | hend
      · omega
      · cases hend
  | case2 pos last problems gap collected hend stretch ih =>
    rcases Nat.eq_or_lt_of_le hhigh with rfl | hlt
    · rw [show gap = _ from hgap] at hend
      exact absurd hboundary hend
    · obtain ⟨q, hle, hq, hgapq, hopens⟩ := h.gap_eq hlow hlt
      have hstop : gap.stop = q := by rw [show gap = _ from hgapq]
      have hsize := lt_size_of_getElem? h.feed
      have hmore : gap.stop + 1 ≤ stretch := le_seek (by omega)
      have hless : stretch ≤ stop := seek_le_of_match (by omega) h.feed rfl
      have hquiet : collected = problems := by
        simp only [collected, gap, hgapq]
        simp
      rw [ih (by omega) hless rfl, hquiet]

end Text

/-- A byte that is written in movetext is no blank. -/
theorem Byte.not_isBlank {b : UInt8} : space ≤ b ∧ b ≠ space → isBlank b = false :=
  forall_of_table (p := fun b => space ≤ b ∧ b ≠ space → isBlank b = false) (by decide +kernel) b

namespace WrittenGame

variable {t : Text} {strict : Bool} {pos : Nat} {g : WrittenGame}

/-! ## One game -/

/-- A game is its header, an empty line, its movetext and another empty line. -/
theorem write_eq (g : WrittenGame) :
    g.write = g.header ++ Byte.newline :: (g.movetext ++ [Byte.newline, Byte.newline]) := by
  simp [write, lines, header]

/-- The number of bytes of a game that is written. -/
theorem length_write (g : WrittenGame) :
    g.write.length = g.header.length + g.movetext.length + 3 := by
  simp only [write_eq, List.length_append, List.length_cons, List.length_nil]
  omega

/-- A header starts with the line of its first tag. -/
theorem header_eq (g : WrittenGame) :
    ∃ tag rest, g.tags = tag :: rest ∧
      g.header = tag.write ++ Byte.newline :: lines (rest.map WrittenTag.write) := by
  obtain ⟨tag, rest, htags⟩ := List.exists_cons_of_ne_nil g.tags_ne
  exact ⟨tag, rest, htags, by rw [header, htags, List.map_cons, lines_cons]⟩

/-- The parts of a game, each in its place. -/
structure Stands (g : WrittenGame) (t : Text) (pos : Nat) : Prop where
  header : t.holdsAt pos g.header = true
  empty : t[pos + g.header.length]? = some Byte.newline
  movetext : t.holdsAt (g.movetextSpan pos).start g.movetext = true
  feed : t[(g.movetextSpan pos).stop]? = some Byte.newline
  closing : t[(g.movetextSpan pos).stop + 1]? = some Byte.newline

/-- A game that is written in a place stands there, part for part. -/
theorem stands_of_holdsAt (h : t.holdsAt pos g.write = true) : g.Stands t pos := by
  simp only [write_eq, Text.holdsAt_append, Text.holdsAt, Bool.and_eq_true, beq_iff_eq,
    Bool.and_true] at h
  obtain ⟨hheader, hempty, hmovetext, hfeed, hclosing⟩ := h
  exact ⟨hheader, hempty, hmovetext, hfeed, hclosing⟩

/-- What cataloguing should find of the game, but for its number, if it is written from `pos` on. -/
def entry (g : WrittenGame) (t : Text) (pos : Nat) : Entry :=
  ⟨0, g.tagSpan pos, g.movetextSpan pos, t.checksum (g.tagSpan pos), .valid⟩

namespace Stands

variable (h : g.Stands t pos)

include h

/-- The first tag is seen as the start of a header. -/
theorem opensTag : t.opensTag pos = true := by
  obtain ⟨tag, rest, -, hheader⟩ := g.header_eq
  have hheld := h.header
  rw [hheader, Text.holdsAt_append, Bool.and_eq_true] at hheld
  exact (WrittenTag.stands_of_holdsAt hheld.1).opensTag

/-- The movetext is one line in which nothing opens. -/
theorem plainLine : t.PlainLine (g.movetextSpan pos).start (g.movetextSpan pos).stop where
  plain := by
    intro i hi hlt
    have hget := List.getElem?_eq_getElem
      (show i - (g.movetextSpan pos).start < g.movetext.length by
        simp only [movetextSpan] at hi hlt ⊢
        omega)
    have hheld := Text.holdsAt_iff.1 h.movetext _ _ hget
    rw [Nat.add_sub_cancel' hi] at hheld
    exact ⟨_, hheld, g.unmarked _ (List.mem_of_getElem? hget)⟩
  last := by
    have hlength := List.length_pos_iff.2 g.movetext_ne
    obtain ⟨b, hb⟩ : ∃ b, g.movetext.getLast? = some b :=
      ⟨_, List.getLast?_eq_some_getLast g.movetext_ne⟩
    have hne := g.last_ne
    rw [hb, ne_eq, Option.some.injEq] at hne
    rw [List.getLast?_eq_getElem?] at hb
    have hprintable := g.printable b (List.mem_of_getElem? hb)
    refine ⟨b, ?_, Byte.not_isBlank ⟨hprintable.1, hne⟩⟩
    refine Text.getElem?_of_eq ?_ (Text.holdsAt_iff.1 h.movetext _ _ hb)
    simp only [movetextSpan]
    omega
  feed := h.feed

/-- The movetext starts with a token. -/
theorem first_token : t.inGap (g.movetextSpan pos).start = false ∧
    t[(g.movetextSpan pos).start]? ≠ some Byte.openBracket := by
  obtain ⟨b, rest, hmovetext⟩ := List.exists_cons_of_ne_nil g.movetext_ne
  have hmem : b ∈ g.movetext := by rw [hmovetext]; exact List.mem_cons_self
  have hne := g.head_ne
  rw [hmovetext, List.head?_cons, ne_eq, Option.some.injEq] at hne
  have hb : t[(g.movetextSpan pos).start]? = some b :=
    Text.holdsAt_iff.1 h.movetext 0 b (by rw [hmovetext]; rfl)
  obtain ⟨hbracket, hbrace, hsemicolon, hpercent⟩ := g.unmarked b hmem
  have hblank := Byte.not_isBlank ⟨(g.printable b hmem).1, hne⟩
  constructor
  · simp [Text.inGap_of_getElem? hb, hblank, hbrace, hsemicolon, hpercent]
  · simpa [hb] using hbracket

/-- The header is read with its tags in their places and without a problem. -/
theorem header_eq :
    t.header strict pos = ⟨g.tagSpan pos, (g.movetextSpan pos).start, (g.movetextSpan pos).start,
      rawTags pos g.tags, []⟩ := by
  obtain ⟨hgap, htoken⟩ := h.first_token
  rw [Text.header, headerFrom_lines g.tags_ne h.header rfl h.empty hgap htoken]
  rfl

/-- Cataloguing a written game finds it, where it was written, and no problem, if behind it the text
ends or a header starts. -/
theorem scanGame_eq (strict : Bool) (hboundary : t.size = pos + g.write.length ∨
    t.opensTag (pos + g.write.length) = true) :
    t.scanGame strict pos = (g.entry t pos, pos + g.write.length, []) := by
  have hnext : (g.movetextSpan pos).stop + 1 + 1 = pos + g.write.length := by
    rw [length_write]
    simp only [movetextSpan]
    omega
  -- The text ends or another game begins behind this one, which is no gap.
  have hin : t.inGap (pos + g.write.length) = false := by
    rcases hboundary with hend | hopens
    · exact Text.inGap_of_size_le (Nat.le_of_eq hend)
    · exact Text.inGap_of_openBracket (Text.getElem?_of_opensTag hopens)
  have hgap : t.gap (g.movetextSpan pos).stop = ⟨pos + g.write.length, #[], none⟩ := by
    rw [← Text.gap_of_not_inGap hin, ← hnext]
    exact (Text.gapFrom_of_isBlank h.feed rfl #[]).trans (Text.gapFrom_of_isBlank h.closing rfl #[])
  have hmovetext := h.plainLine.movetextFrom_eq hgap (hboundary.imp Nat.le_of_eq id)
    (Nat.le_refl _) (Nat.le_add_right ..) rfl #[]
  rw [Text.scanGame, h.header_eq]
  simp only [hmovetext]
  have hmax : max (g.movetextSpan pos).stop (g.movetextSpan pos).start =
      (g.movetextSpan pos).stop :=
    Nat.max_eq_left (Nat.le_add_right ..)
  rw [hmax]
  rfl

end Stands

/-! ## All games -/

/-- What cataloguing should find of games that are written from `pos` on. -/
def placed (t : Text) (pos : Nat) : List WrittenGame → List (Entry × Nat)
  | [] => []
  | g :: rest => (g.entry t pos, pos + g.write.length) :: placed t (pos + g.write.length) rest

/-- The first game is written in front of the rest. -/
theorem writeAll_cons (g : WrittenGame) (rest : List WrittenGame) :
    writeAll (g :: rest) = g.write ++ writeAll rest :=
  List.flatMap_cons

/-- Behind a written game the text is over or the next header starts. -/
theorem opensTag_of_writeAll {games : List WrittenGame}
    (h : t.holdsAt pos (writeAll games) = true) (hsize : t.size = pos + (writeAll games).length) :
    t.size = pos ∨ t.opensTag pos = true := by
  cases games with
  | nil => exact .inl hsize
  | cons g rest =>
    rw [writeAll_cons, Text.holdsAt_append, Bool.and_eq_true] at h
    exact .inr (stands_of_holdsAt h.1).opensTag

/-- A scan through written games finds all of them and no problem. -/
theorem gamesFrom_writeAll {games : List WrittenGame} (h : t.holdsAt pos (writeAll games) = true)
    (hsize : t.size = pos + (writeAll games).length) :
    t.gamesFrom strict pos = placed t pos games ∧ t.problemsFrom strict pos = [] := by
  -- By induction on the games, each scanned where the one in front of it ends.
  induction games generalizing pos with
  | nil =>
    have hend : t.size ≤ pos := Nat.le_of_eq hsize
    have hitem := Text.nextItem_of_size_le strict hend
    refine ⟨Text.gamesFrom_of_nothing hitem, Text.problemsFrom_eq_nil_iff.2 ⟨?_, ?_⟩⟩
    · rw [hitem]
    · rw [hitem]
      nofun
  | cons g rest ih =>
    rw [writeAll_cons, Text.holdsAt_append, Bool.and_eq_true] at h
    rw [writeAll_cons, List.length_append, ← Nat.add_assoc] at hsize
    obtain ⟨hgames, hproblems⟩ := ih h.2 hsize
    have hstands := stands_of_holdsAt h.1
    have hb := Text.getElem?_of_opensTag hstands.opensTag
    have hscan := hstands.scanGame_eq strict (opensTag_of_writeAll h.2 hsize)
    refine ⟨?_, Text.problemsFrom_eq_nil_iff.2 ⟨?_, ?_⟩⟩
    · rw [Text.gamesFrom_of_openBracket hb, hscan, hgames]
      rfl
    · rw [Text.nextItem_of_openBracket strict hb, hscan]
    · rw [Text.nextItem_of_openBracket strict hb, hscan]
      intro next hnext
      cases hnext
      exact hproblems

end WrittenGame

end Scorebook
