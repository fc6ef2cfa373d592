import Scorebook.Proofs.Catalogue.Tiling
import Scorebook.Proofs.Header.Growing

/-!
# Games of a text that grows

What a scan finds at some place can depend on bytes far behind it: a comment looks for its brace,
the lookahead for a header sees two hundred bytes, movetext runs on as long as no header comes. All
of that is cut off where the next game starts. A `Seam` is such a place in a text that has grown;
the game in front of it, if its header has no problems, is the one that was there before. What lies
in front of a seam may thus be scanned in the short text and is found again in the long one, which
`Scans` says of any number of games.
-/

namespace Scorebook.Text

variable {t u : Text} {n m k pos start stop next q : Nat} {b c : UInt8} {strict : Bool}
  {entry : Entry}

/-! ## The lookahead -/

/-- Where the lookahead from a bracket ends. -/
def lookaheadStop (t : Text) (pos : Nat) : Nat :=
  let seen := t.upTo (pos + lookahead)
  seen.seek (!isInlineBlank ·) (seen.seek (!Byte.isName ·) (seen.seek (!isInlineBlank ·) (pos + 1)))

/-- No lookahead passes a bracket or the end of a line. -/
def endsLookahead (b : UInt8) : Bool :=
  b == Byte.openBracket || b == Byte.newline

/-- What ends the lookahead is no blank within a line. -/
theorem not_isInlineBlank_of_endsLookahead (h : endsLookahead b = true) :
    isInlineBlank b = false := by
  simp only [endsLookahead, Bool.or_eq_true, beq_iff_eq] at h
  rcases h with rfl | rfl <;> rfl

/-- What ends the lookahead is in no name. -/
theorem not_isName_of_endsLookahead (h : endsLookahead b = true) : Byte.isName b = false := by
  simp only [endsLookahead, Bool.or_eq_true, beq_iff_eq] at h
  rcases h with rfl | rfl <;> rfl

/-- What ends the lookahead ends a stretch of movetext. -/
theorem endsStretch_of_endsLookahead (h : endsLookahead b = true) : endsStretch b = true := by
  simp only [endsLookahead, Bool.or_eq_true, beq_iff_eq] at h
  rcases h with rfl | rfl <;> rfl

/-- However much is in view, seeking does not run past a byte that is sought. -/
theorem seek_upTo_le {p : UInt8 → Bool} (hle : pos ≤ q) (hc : t[q]? = some c) (hp : p c = true)
    (k : Nat) : (t.upTo k).seek p pos ≤ q := by
  rcases Nat.lt_or_ge q k with hlt | hge
  · exact seek_le_of_match hle (by rw [getElem?_upTo, if_pos hlt]; exact hc) hp
  · have hsize := seek_le_size (t.upTo k) p pos
    rw [size_upTo] at hsize
    omega

/-- The lookahead ends at the next byte that ends it. -/
theorem lookaheadStop_le (hpos : pos < q) (hc : t[q]? = some c) (hends : endsLookahead c = true) :
    t.lookaheadStop pos ≤ q := by
  have hblank := not_isInlineBlank_of_endsLookahead hends
  have hname := not_isName_of_endsLookahead hends
  exact seek_upTo_le (seek_upTo_le (seek_upTo_le hpos hc (by simp [hblank]) _) hc
    (by simp [hname]) _) hc (by simp [hblank]) _

namespace AgreeBelow

variable (h : t.AgreeBelow u n)

include h

/-- A lookahead that ends before the texts part finds the same in both. -/
theorem opensTag_of_lookaheadStop (hpos : pos < t.size) (hlt : t.lookaheadStop pos < n) :
    u.opensTag pos = t.opensTag pos := by
  have hseen : (t.upTo (pos + lookahead)).AgreeBelow (u.upTo (pos + lookahead)) n := by
    intro i hi
    rw [getElem?_upTo, getElem?_upTo, h i hi]
  have hfirst : pos + 1 ≤ (t.upTo (pos + lookahead)).size := by
    rw [size_upTo, lookahead]
    omega
  rw [lookaheadStop] at hlt
  rw [Text.opensTag, Text.opensTag]
  simp only at hlt ⊢
  generalize t.upTo (pos + lookahead) = seen at hseen hfirst hlt ⊢
  generalize u.upTo (pos + lookahead) = seen' at hseen ⊢
  have hname := le_seek (p := (!isInlineBlank ·)) hfirst
  have hblank := le_seek (p := (!Byte.isName ·)) (seek_le_size seen (!isInlineBlank ·) (pos + 1))
  have hquote := le_seek (p := (!isInlineBlank ·)) (seek_le_size seen (!Byte.isName ·)
    (seen.seek (!isInlineBlank ·) (pos + 1)))
  rw [← h pos (by omega), hseen.seek (by omega), hseen.seek (by omega), hseen.seek hlt,
    hseen _ hlt]

/-- Where the longer text goes on, a bracket or the end of a line keeps every lookahead out. -/
theorem opensTag_of_endsLookahead (hpos : pos < q) (hlt : q < n) (hc : t[q]? = some c)
    (hends : endsLookahead c = true) : u.opensTag pos = t.opensTag pos :=
  h.opensTag_of_lookaheadStop (Nat.lt_trans hpos (lt_size_of_getElem? hc))
    (Nat.lt_of_le_of_lt (lookaheadStop_le hpos hc hends) hlt)

end AgreeBelow

/-- A lookahead that finds a tag ends in front of the end of the text. -/
theorem lookaheadStop_lt (h : t.opensTag pos = true) : t.lookaheadStop pos < t.size := by
  rw [opensTag, if_pos (getElem?_of_opensTag h)] at h
  simp only [Bool.and_eq_true, beq_iff_eq] at h
  have hlt := lt_size_of_getElem? h.2
  rw [size_upTo] at hlt
  exact Nat.lt_of_lt_of_le hlt (Nat.min_le_right ..)

/-- A header that can start in a text can still start there when the text has grown. -/
theorem AgreeBelow.opensTag_of_opensTag (h : t.AgreeBelow u t.size)
    (hopens : t.opensTag pos = true) :
    u.opensTag pos = true := by
  rw [h.opensTag_of_lookaheadStop (lt_size_of_getElem? (getElem?_of_opensTag hopens))
    (lookaheadStop_lt hopens)]
  exact hopens

/-! ## Seams -/

/-- In the longer text `u` a game starts at `m`, and the shorter text `t` ends there with a line,
if it has not gone on alike beyond. -/
structure Seam (t u : Text) (m : Nat) : Prop where
  agree : t.AgreeBelow u t.size
  opensTag : u.opensTag m = true
  cut : t[m]? = some Byte.openBracket ∨
    m = t.size ∧ ∃ k, m = k + 1 ∧ t[k]? = some Byte.newline

/-- Where a game starts within the shorter text there is a seam. -/
theorem Seam.of_opensTag (h : t.AgreeBelow u t.size) (hopens : t.opensTag m = true) :
    Seam t u m :=
  ⟨h, h.opensTag_of_opensTag hopens, .inl (getElem?_of_opensTag hopens)⟩

/-- A gap that reaches the end of a text without a problem ends there still if no gap goes on in
the longer text. The last byte being a line feed, no comment at the end of a line goes on either. -/
theorem AgreeBelow.gapFrom_of_end (h : t.AgreeBelow u t.size) (hend : t.size = k + 1)
    (hfeed : t[k]? = some Byte.newline) (hstop : u.inGap t.size = false) (comments : Array Span)
    (hpos : pos ≤ t.size) (hnone : (t.gapFrom pos comments).problem? = none) :
    u.gapFrom pos comments = t.gapFrom pos comments := by
  -- By the recursion of `gapFrom`: what the gap consists of ends in the shorter text, so it ends
  -- there in the longer one too.
  fun_induction Text.gapFrom t pos comments with
  | case1 pos comments hb =>
    have hle := getElem?_eq_none_iff.1 hb
    rw [show pos = t.size by omega]
    exact gapFrom_of_not_inGap hstop comments
  | case2 pos comments b hb hblank ih =>
    have hlt := lt_size_of_getElem? hb
    rw [gapFrom_of_isBlank (h.getElem? hb hlt) hblank]
    exact ih hlt hnone
  | case3 pos comments b hb hblank hescape eol heol ih =>
    have hlt := lt_size_of_getElem? hb
    have hline : u.lineEnd pos = eol := h.seek heol
    rw [gapFrom_of_getElem? (h.getElem? hb hlt), if_neg hblank, h.atLineStart (Nat.le_of_lt hlt),
      if_pos hescape, hline, if_pos (h.lt_size heol heol)]
    exact ih heol hnone
  | case4 => cases hnone
  | case5 pos comments eol hb hblank hescape ih =>
    have hlt := lt_size_of_getElem? hb
    -- The comment ends with its line, and the last line of the text has an end.
    have heol : eol < t.size :=
      Nat.lt_of_le_of_lt (seek_le_of_match (show pos ≤ k by omega) hfeed rfl) (by omega)
    have hline : u.lineEnd pos = eol := h.seek heol
    rw [gapFrom_of_getElem? (h.getElem? hb hlt), if_neg hblank, h.atLineStart (Nat.le_of_lt hlt),
      if_neg hescape, if_pos rfl, hline]
    exact ih (Nat.le_of_lt heol) hnone
  | case6 pos comments b hb hblank hescape hcomment hbrace close hclose ih =>
    have hlt := lt_size_of_getElem? hb
    have hseek : u.seek (· == Byte.closeBrace) pos = close := h.seek hclose
    rw [gapFrom_of_getElem? (h.getElem? hb hlt), if_neg hblank, h.atLineStart (Nat.le_of_lt hlt),
      if_neg hescape, if_neg hcomment, if_pos hbrace, hseek, if_pos (h.lt_size hclose hclose)]
    exact ih hclose hnone
  | case7 => cases hnone
  | case8 pos comments b hb hblank hescape hcomment hbrace =>
    have hlt := lt_size_of_getElem? hb
    rw [gapFrom_of_getElem? (h.getElem? hb hlt), if_neg hblank, h.atLineStart (Nat.le_of_lt hlt),
      if_neg hescape, if_neg hcomment, if_neg hbrace]

/-- The movetext of a game ends with what was stepped over behind its header. -/
theorem scanGame_movetext_stop (strict : Bool) (hb : t[start]? = some Byte.openBracket) :
    (t.scanGame strict start).1.movetext.stop =
      (t.movetextFrom (t.header strict start).next (t.header strict start).next #[]).last := by
  have hextent := header_extent strict hb
  have hmovetext := hextent.movetext_le_next
  have hlast := (movetextFrom_lies #[] rfl hextent.next_le).le_last
  exact Nat.max_eq_left (by omega)

namespace Seam

variable (h : Seam t u m)

include h

/-- The seam is in the text. -/
theorem le_size : m ≤ t.size := by
  rcases h.cut with hb | ⟨hend, -⟩
  · exact Nat.le_of_lt (lt_size_of_getElem? hb)
  · exact Nat.le_of_eq hend

/-- The byte that keeps what stands in front of the seam from looking across it. -/
theorem guard : ∃ q c, t[q]? = some c ∧ endsLookahead c = true ∧ q ≤ m ∧
    ∀ pos, pos < m → t[pos]? ≠ some Byte.newline → pos < q := by
  rcases h.cut with hb | ⟨-, k, rfl, hfeed⟩
  · exact ⟨m, _, hb, rfl, Nat.le_refl m, fun pos hlt _ => hlt⟩
  · refine ⟨k, _, hfeed, rfl, Nat.le_succ k, ?_⟩
    intro pos hlt hne
    have hpos : pos ≠ k := by
      rintro rfl
      exact hne hfeed
    omega

/-- A gap that ends in front of the seam is the same. -/
theorem gap (hle : (t.gap pos).stop ≤ m) (hnone : (t.gap pos).problem? = none) :
    u.gap pos = t.gap pos := by
  have hb := getElem?_of_opensTag h.opensTag
  rcases h.cut with hcut | ⟨rfl, k, hend, hfeed⟩
  · exact h.agree.gap (Nat.lt_of_le_of_lt hle (lt_size_of_getElem? hcut))
  · exact h.agree.gapFrom_of_end hend hfeed (inGap_of_openBracket hb) #[]
      (Nat.le_trans (le_gap_stop t pos) hle) hnone

/-- In front of the seam the same brackets open tags. -/
theorem opensTag_eq (hlt : pos < m) : u.opensTag pos = t.opensTag pos := by
  by_cases hb : t[pos]? = some Byte.openBracket
  · obtain ⟨q, c, hc, hends, -, hguard⟩ := h.guard
    have hpos := hguard pos hlt (by rw [hb]; decide)
    exact h.agree.opensTag_of_endsLookahead hpos (lt_size_of_getElem? hc) hc hends
  · have hle := h.le_size
    have hbu : u[pos]? ≠ some Byte.openBracket := by rwa [← h.agree pos (by omega)]
    rw [Text.opensTag, Text.opensTag, if_neg hb, if_neg hbu]

/-- A stretch of movetext in front of the seam ends there at the latest. -/
theorem stretch (hlt : pos < m) (hb : t[pos]? = some b) (hblank : Byte.isBlank b = false) :
    u.seek endsStretch (pos + 1) = t.seek endsStretch (pos + 1) := by
  obtain ⟨q, c, hc, hends, -, hguard⟩ := h.guard
  have hpos : pos < q := hguard pos hlt (by
    rw [hb]
    rintro ⟨⟩
    cases hblank)
  have hle := seek_le_of_match hpos hc (endsStretch_of_endsLookahead hends)
  exact h.agree.seek (Nat.lt_of_le_of_lt hle (lt_size_of_getElem? hc))

/-- Movetext that ends at the seam is the same in the longer text. -/
theorem movetextFrom (problems : Array Problem) {last : Nat} (hlast : last = pos)
    (hnext : (t.movetextFrom pos last problems).next = m)
    (hnone : (t.gap (t.movetextFrom pos last problems).last).problem? = none) :
    u.movetextFrom pos last problems = t.movetextFrom pos last problems := by
  fun_induction Text.movetextFrom t pos last problems with
  | case1 pos last problems gap _ hend =>
    -- The movetext ends at the seam, where the longer text has a header.
    obtain rfl : last = pos := hlast
    have hstop : gap.stop = m := hnext
    have hgap : u.gap last = gap := h.gap (Nat.le_of_eq hstop) hnone
    rw [Text.movetextFrom, hgap, if_pos (.inr (by rw [hstop]; exact h.opensTag))]
  | case2 pos last problems gap problems' hend stop ih =>
    -- A stretch in front of the seam, and no header can start there in either text.
    have hopen : gap.stop < t.size ∧ t.opensTag gap.stop = false := by simpa using hend
    have hstop : gap.stop + 1 ≤ stop := le_seek hopen.1
    have hlt : gap.stop < m := by
      have hle := le_movetextFrom_next t stop stop problems'
      omega
    obtain ⟨b, hb⟩ := exists_getElem? hopen.1
    have hplain : Byte.isBlank b = false := by
      have hgap : t.inGap gap.stop = false := inGap_gap_stop t pos
      rw [inGap_of_getElem? hb] at hgap
      simp_all
    have hgap : u.gap pos = gap := h.agree.gap hopen.1
    have hstretch : u.seek endsStretch (gap.stop + 1) = stop := h.stretch hlt hb hplain
    have hendu : ¬(u.size ≤ gap.stop ∨ u.opensTag gap.stop = true) := by
      have hsize := h.agree.lt_size hopen.1 hopen.1
      rw [h.opensTag_eq hlt, hopen.2]
      simpa using hsize
    rw [Text.movetextFrom, hgap, if_neg hendu, hstretch]
    exact ih rfl hnext hnone

/-- The game in front of a seam is the same in both texts, if nothing is wrong with its header and
the seam does not cut it off in its header or in a comment. -/
theorem scanGame (hb : t[start]? = some Byte.openBracket)
    (hnext : (t.scanGame strict start).2.1 = m)
    (hvalid : (t.scanGame strict start).1.verdict = .valid)
    (htoken : (t.header strict start).next < m)
    (hnone : (t.gap (t.scanGame strict start).1.movetext.stop).problem? = none) :
    u.scanGame strict start = t.scanGame strict start := by
  have hextent := header_extent strict hb
  have hle := h.le_size
  have hstop := hextent.stop_le_next
  have hheader : u.header strict start = t.header strict start :=
    h.agree.header hb hvalid (Nat.lt_of_lt_of_le htoken hle)
  have hchecksum : u.checksum (t.header strict start).span =
      t.checksum (t.header strict start).span :=
    h.agree.checksum (by omega)
  rw [scanGame_movetext_stop strict hb] at hnone
  have hmove := h.movetextFrom #[] rfl hnext hnone
  simp only [Text.scanGame, hheader, hchecksum, hmove]

/-- A seam within the shorter text neither cuts off a header nor a comment. -/
theorem scanGame_of_lt (hb : t[start]? = some Byte.openBracket)
    (hnext : (t.scanGame strict start).2.1 = m) (hlt : m < t.size)
    (hvalid : (t.scanGame strict start).1.verdict = .valid) :
    u.scanGame strict start = t.scanGame strict start := by
  have hlies := scanGame_lies strict hb
  have hextent := header_extent strict hb
  have hcut : t[m]? = some Byte.openBracket := h.cut.resolve_right fun ⟨hend, _⟩ => by omega
  apply h.scanGame hb hnext hvalid
  · have hle : (t.header strict start).next ≤ m := hnext ▸ le_movetextFrom_next ..
    have hne : (t.header strict start).next ≠ m := fun heq => hextent.not_bracket (heq ▸ hcut)
    omega
  · apply gap_problem?_of_stop_lt
    rw [hlies.gap_stop, hnext]
    exact hlt

end Seam

end Scorebook.Text
