import Scorebook.Proofs.Header.Pairs
import Scorebook.Proofs.Zones

/-!
# The extent of one game

What one step of cataloguing finds out about a game, said in terms of the text: where its header
and its movetext begin and end, that only blanks lie between the two, that behind the movetext
there is nothing but a gap up to the next header, and that no header was stepped over inside.
-/

namespace Scorebook.Text

variable {t : Text} {strict : Bool} {start pos stop i : Nat} {b : UInt8}

/-! ## Headers -/

/-- How a header lies in the text. -/
structure HeaderExtent (t : Text) (start : Nat) (h : Header) : Prop where
  start_eq : h.span.start = start
  gap_stop : (t.gap h.span.stop).stop = h.next
  next_le : h.next ≤ t.size
  not_bracket : t[h.next]? ≠ some Byte.openBracket
  movetext_eq : h.movetext = (t.upTo h.next).seek (!Byte.isBlank ·) h.span.stop

/-- Reading pairs from a gap on keeps to the extent of a header. -/
theorem headerFrom_extent (tags : Array RawTag) (problems : Array Problem)
    (hgap : (t.gap stop).stop = pos) (hpos : pos ≤ t.size) :
    HeaderExtent t start (t.headerFrom strict start pos stop tags problems) ∧
      stop ≤ (t.headerFrom strict start pos stop tags problems).span.stop := by
  fun_induction headerFrom t strict start pos stop tags problems with
  | case1 pos stop tags problems hb warned tag next hpair gap ih =>
    have hnext : pos < next := lt_of_tagPair (lt_size_of_getElem? hb) hpair
    have hle : stop ≤ pos := hgap ▸ le_gap_stop t stop
    obtain ⟨hextent, hstop⟩ := ih rfl (gap_stop_le (le_size_of_tagPair hpair))
    exact ⟨hextent, by omega⟩
  | case2 pos stop tags problems hb warned problem hpair next gap ih =>
    have hnext : pos < next := lt_lineEnd hb (by decide)
    have hle : stop ≤ pos := hgap ▸ le_gap_stop t stop
    obtain ⟨hextent, hstop⟩ := ih rfl (gap_stop_le (lineEnd_le_size t pos))
    exact ⟨hextent, by omega⟩
  | case3 pos stop tags problems hb => exact ⟨⟨rfl, hgap, hpos, hb, rfl⟩, Nat.le_refl _⟩

/-- A header has the extent of its pairs and gaps. -/
theorem header_extent (strict : Bool) (hb : t[start]? = some Byte.openBracket) :
    HeaderExtent t start (t.header strict start) :=
  (headerFrom_extent #[] #[] (by rw [gap_of_openBracket hb])
    (Nat.le_of_lt (lt_size_of_getElem? hb))).1

/-- A pair that is read is kept, and reading goes on behind the gap behind it. -/
theorem headerFrom_of_tagPair {tag : RawTag} {next : Nat} (hb : t[pos]? = some Byte.openBracket)
    (hpair : t.tagPair pos = .ok (tag, next)) (tags : Array RawTag) (problems : Array Problem) :
    t.headerFrom strict start pos stop tags problems =
      t.headerFrom strict start (t.gap next).stop next (tags.push tag)
        ((if strict then problems ++ t.tabsInTag pos else problems) ++
          (t.gap next).problem?.toList) := by
  rw [headerFrom, dif_pos hb]
  simp only
  split
  · next tag' next' hpair' =>
    rw [hpair] at hpair'
    cases hpair'
    rfl
  · next problem hpair' =>
    rw [hpair] at hpair'
    cases hpair'

/-- A pair that fails is noted, and reading goes on behind its line. -/
theorem headerFrom_of_problem {problem : Problem} (hb : t[pos]? = some Byte.openBracket)
    (hpair : t.tagPair pos = .error problem) (tags : Array RawTag) (problems : Array Problem) :
    t.headerFrom strict start pos stop tags problems =
      t.headerFrom strict start (t.gap (t.lineEnd pos)).stop (t.lineEnd pos) tags
        ((if strict then problems ++ t.tabsInTag pos else problems) ++
          problem :: (t.gap (t.lineEnd pos)).problem?.toList) := by
  rw [headerFrom, dif_pos hb]
  simp only
  split
  · next tag' next' hpair' =>
    rw [hpair] at hpair'
    cases hpair'
  · next problem' hpair' =>
    rw [hpair] at hpair'
    cases hpair'
    rfl

/-- Without a bracket the header has ended. -/
theorem headerFrom_of_ne (hb : t[pos]? ≠ some Byte.openBracket) (tags : Array RawTag)
    (problems : Array Problem) :
    t.headerFrom strict start pos stop tags problems =
      ⟨⟨start, stop⟩, pos, (t.upTo pos).seek (!Byte.isBlank ·) stop, tags.toList,
        problems.toList⟩ := by
  rw [headerFrom, dif_neg hb]

/-- The pairs end behind their first bracket. -/
theorem lt_headerFrom_span_stop (tags : Array RawTag) (problems : Array Problem)
    (hb : t[pos]? = some Byte.openBracket) :
    pos < (t.headerFrom strict start pos stop tags problems).span.stop := by
  cases hpair : t.tagPair pos with
  | ok found =>
    obtain ⟨tag, next⟩ := found
    have hnext : pos < next := lt_of_tagPair (lt_size_of_getElem? hb) hpair
    rw [headerFrom_of_tagPair hb hpair]
    exact Nat.lt_of_lt_of_le hnext
      (headerFrom_extent _ _ rfl (gap_stop_le (le_size_of_tagPair hpair))).2
  | error problem =>
    have hnext : pos < t.lineEnd pos := lt_lineEnd hb (by decide)
    rw [headerFrom_of_problem hb hpair]
    exact Nat.lt_of_lt_of_le hnext
      (headerFrom_extent _ _ rfl (gap_stop_le (lineEnd_le_size t pos))).2

/-- A header ends behind its first bracket. -/
theorem lt_header_span_stop (strict : Bool) (hb : t[start]? = some Byte.openBracket) :
    start < (t.header strict start).span.stop :=
  lt_headerFrom_span_stop #[] #[] hb

namespace HeaderExtent

variable {h : Header} (he : HeaderExtent t start h)

include he

/-- The scan goes on behind the pairs. -/
theorem stop_le_next : h.span.stop ≤ h.next :=
  he.gap_stop ▸ le_gap_stop t h.span.stop

/-- The movetext is behind the pairs. -/
theorem stop_le_movetext : h.span.stop ≤ h.movetext := by
  have hle := he.stop_le_next
  have hnext := he.next_le
  rw [he.movetext_eq]
  exact le_seek (by rw [size_upTo]; omega)

/-- Blanks may be between the pairs and the movetext, comments belong to it. -/
theorem movetext_le_next : h.movetext ≤ h.next := by
  rw [he.movetext_eq]
  exact Nat.le_trans (seek_le_size ..) (Nat.min_le_left ..)

/-- Between the tags and the movetext there are only blanks. -/
theorem blank (hi : h.span.stop ≤ i) (hlt : i < h.movetext) : t[i]?.any Byte.isBlank = true := by
  have hmovetext := he.movetext_le_next
  have hnext := he.next_le
  obtain ⟨c, hc⟩ := exists_getElem? (show i < t.size by omega)
  have hseen : (t.upTo h.next)[i]? = some c := by rw [getElem?_upTo, if_pos (by omega), hc]
  have hnot := not_of_lt_seek hi (he.movetext_eq ▸ hlt) hseen
  simpa [hc] using hnot

/-- The movetext starts with the first comment behind the tags, or else with its first token. -/
theorem gap_movetext_stop : (t.gap h.movetext).stop = h.next := by
  rw [← gap_of_blanks he.stop_le_movetext fun i hi hlt => he.blank hi hlt]
  exact he.gap_stop

/-- The first token behind the header stands in no comment of the movetext. -/
theorem zone_next (hsize : h.next < t.size) : t.zone h.movetext h.next = .plain := by
  have hgap := he.gap_movetext_stop
  have hopen : t.zone h.movetext (t.gap h.movetext).stop = .plain :=
    zone_gap_stop (by rw [hgap]; exact hsize)
  rwa [hgap] at hopen

end HeaderExtent

/-! ## Movetext -/

/-- Only a bracket opens a tag. -/
theorem getElem?_of_opensTag (h : t.opensTag pos = true) : t[pos]? = some Byte.openBracket := by
  unfold opensTag at h
  split at h
  · assumption
  · cases h

/-- No other byte opens a tag. -/
theorem opensTag_eq_false (h : t[pos]? = some b) (hne : b ≠ Byte.openBracket) :
    t.opensTag pos = false := by
  rw [opensTag, if_neg (by rw [h]; simpa using hne)]

/-- A header cannot start in a gap. -/
theorem opensTag_of_isSpare (hle : start ≤ pos) (h : t.IsSpare start pos)
    (hplain : t.zone start pos = .plain) : t.opensTag pos = false := by
  cases hopens : t.opensTag pos with
  | false => rfl
  | true =>
    have hb := getElem?_of_opensTag hopens
    rcases h with hblank | hopen | hafter
    · rw [hb] at hblank; cases hblank
    · exact absurd hplain hopen
    · rw [zone_succ hle hb, hplain] at hafter
      exact absurd rfl hafter

/-- No line starts behind a byte that is no blank. -/
theorem not_atLineStart (hb : t[pos]? = some b) (hblank : Byte.isBlank b = false) :
    t.atLineStart (pos + 1) = false := by
  have hbreak : Byte.isLineBreak b = false := by
    cases h : Byte.isLineBreak b with
    | false => rfl
    | true =>
      simp only [Byte.isLineBreak, Bool.or_eq_true, beq_iff_eq] at h
      rcases h with rfl | rfl <;> cases hblank
  simp [atLineStart, hb, hbreak]

/-- The first byte of a stretch is not in a gap, and none of the others ends the stretch. -/
theorem not_isBlank_of_stretch (hstart : t.inGap start = false) (hi : start ≤ i)
    (hlt : i < t.seek endsStretch (start + 1)) (hb : t[i]? = some b) :
    Byte.isBlank b = false := by
  rcases Nat.eq_or_lt_of_le hi with rfl | hi
  · rw [inGap_of_getElem? hb] at hstart
    simp_all
  · have hends := not_of_lt_seek hi hlt hb
    simp only [endsStretch, Bool.or_eq_false_iff] at hends
    simp [hends]

/-- A stretch of movetext opens no comment and no escaped line. -/
theorem zone_stretch (hstart : t.inGap start = false) (hi : start ≤ i)
    (hle : i ≤ t.seek endsStretch (start + 1)) : t.zone start i = .plain := by
  apply zone_lasts (Nat.le_refl start) (zone_self t start) hi
  intro j c hj hlt hc
  rcases Nat.eq_or_lt_of_le hj with rfl | hj
  · rw [inGap_of_getElem? hc] at hstart
    simp only [Bool.or_eq_false_iff, beq_eq_false_iff_ne] at hstart
    exact Zone.behind_plain hstart.1.1.2 hstart.1.2 hstart.2
  · -- A percent sign further on is not the first byte of its line.
    obtain ⟨k, rfl⟩ : ∃ k, j = k + 1 := ⟨j - 1, by omega⟩
    obtain ⟨d, hd⟩ := exists_getElem? (Nat.lt_of_succ_lt (lt_size_of_getElem? hc))
    have hfirst := not_atLineStart hd (not_isBlank_of_stretch hstart (by omega) (by omega) hd)
    have hends := not_of_lt_seek hj (by omega : k + 1 < t.seek endsStretch (start + 1)) hc
    simp only [endsStretch, Bool.or_eq_false_iff, beq_eq_false_iff_ne] at hends
    exact Zone.behind_plain (by simp [hfirst]) (by simp [hends]) (by simp [hends])

/-- How movetext that is stepped over from `pos` on lies in the text. -/
structure MovetextLies (t : Text) (pos : Nat) (extent : MovetextExtent) : Prop where
  le_last : pos ≤ extent.last
  gap_stop : (t.gap extent.last).stop = extent.next
  next_le : extent.next ≤ t.size
  boundary : extent.next = t.size ∨ t.opensTag extent.next = true
  zone_last : t.zone pos extent.last = .plain
  no_header : ∀ i, pos ≤ i → i < extent.next → t.zone pos i = .plain → t.opensTag i = false

/-- A scan of movetext finds where it starts and ends. -/
theorem movetextFrom_lies (problems : Array Problem) {last : Nat} (hlast : last = pos)
    (hpos : pos ≤ t.size) : MovetextLies t pos (t.movetextFrom pos last problems) := by
  -- By the recursion of the scan. A tag is opened nowhere in front of its end.
  fun_induction movetextFrom t pos last problems with
  | case1 pos last problems gap _ hend =>
    obtain rfl : last = pos := hlast
    have hle : gap.stop ≤ t.size := gap_stop_le hpos
    refine ⟨Nat.le_refl _, rfl, hle, ?_, zone_self t _, ?_⟩
    · exact hend.imp (fun hsize => Nat.le_antisymm hle hsize) id
    · -- In front of the end of a gap there are only bytes that it skips.
      intro i hi hlt hplain
      exact opensTag_of_isSpare hi (isSpare_of_lt_gap_stop hi hlt) hplain
  | case2 pos last problems gap _ hend stop ih =>
    have hopen : gap.stop < t.size ∧ t.opensTag gap.stop = false := by simpa using hend
    have hgap : t.inGap gap.stop = false := inGap_gap_stop t pos
    have hlow : pos ≤ gap.stop := le_gap_stop t pos
    have hstop : gap.stop + 1 ≤ stop := le_seek hopen.1
    -- Within a stretch all bytes are plain, so what holds behind it holds from its end on.
    have hstretch (i : Nat) (hi : gap.stop ≤ i) (hle : i ≤ stop) : t.zone pos i = .plain := by
      rw [zone_eq_zone hlow (zone_gap_stop hopen.1) hi]
      exact zone_stretch hgap hi hle
    have hplain := hstretch stop (by omega) (Nat.le_refl stop)
    obtain ⟨hle, hgapstop, hsize, hboundary, hzone, hnone⟩ := ih rfl (seek_le_size ..)
    refine ⟨by omega, hgapstop, hsize, hboundary, ?_, ?_⟩
    · rw [zone_eq_zone (by omega) hplain hle]
      exact hzone
    · intro i hi hlt hz
      -- A plain byte lies in the gap, in the stretch, or behind both.
      rcases Nat.lt_or_ge i gap.stop with hfront | hbehind
      · exact opensTag_of_isSpare hi (isSpare_of_lt_gap_stop hi hfront) hz
      · rcases Nat.lt_or_ge i stop with hinside | hpast
        · rcases Nat.eq_or_lt_of_le hbehind with rfl | hbehind
          · exact hopen.2
          · obtain ⟨c, hc⟩ := exists_getElem? (Nat.lt_of_lt_of_le hinside (seek_le_size ..))
            have hends := not_of_lt_seek hbehind hinside hc
            simp only [endsStretch, Bool.or_eq_false_iff, beq_eq_false_iff_ne] at hends
            exact opensTag_eq_false hc hends.1.1.2
        · exact hnone i hpast hlt (by rw [← zone_eq_zone (by omega) hplain hpast]; exact hz)

/-! ## One game -/

/-- How a game whose header starts at `start` lies in the text, up to where the next may start. -/
structure Lies (t : Text) (start : Nat) (entry : Entry) (next : Nat) : Prop where
  opening : t[start]? = some Byte.openBracket
  tags_start : entry.tags.start = start
  start_lt : start < entry.tags.stop
  tags_le : entry.tags.stop ≤ entry.movetext.start
  movetext_le : entry.movetext.start ≤ entry.movetext.stop
  stop_le : entry.movetext.stop ≤ next
  next_le : next ≤ t.size
  blank : ∀ i, entry.tags.stop ≤ i → i < entry.movetext.start →
    t[i]?.any Byte.isBlank = true
  gap_stop : (t.gap entry.movetext.stop).stop = next
  boundary : next = t.size ∨ t.opensTag next = true
  no_header : ∀ i, entry.movetext.start ≤ i → i < entry.movetext.stop →
    t.zone entry.movetext.start i = .plain → t.opensTag i = false
  checksum_eq : entry.checksum = t.checksum entry.tags

/-- A scan of a game finds where its parts lie. -/
theorem scanGame_lies (strict : Bool) (hb : t[start]? = some Byte.openBracket) :
    Lies t start (t.scanGame strict start).1 (t.scanGame strict start).2.1 := by
  have hheader := header_extent strict hb
  have hmovetext := movetextFrom_lies #[] rfl hheader.next_le
  have hnext := hheader.movetext_le_next
  have hlast := hmovetext.le_last
  -- The movetext was scanned from the end of the gap behind the header.
  have hmax :
      max (t.movetextFrom (t.header strict start).next (t.header strict start).next #[]).last
        (t.header strict start).movetext =
      (t.movetextFrom (t.header strict start).next (t.header strict start).next #[]).last :=
    Nat.max_eq_left (by omega)
  have hle := hmovetext.gap_stop ▸ le_gap_stop t _
  refine {
    opening := hb
    tags_start := hheader.start_eq
    start_lt := lt_header_span_stop strict hb
    tags_le := hheader.stop_le_movetext
    movetext_le := Nat.le_max_right _ _
    stop_le := ?_
    next_le := hmovetext.next_le
    blank := fun i hi hlt => hheader.blank hi hlt
    gap_stop := ?_
    boundary := hmovetext.boundary
    no_header := ?_
    checksum_eq := rfl }
  · simp only [scanGame, hmax]
    exact hle
  · simp only [scanGame, hmax]
    exact hmovetext.gap_stop
  · simp only [scanGame, hmax]
    intro i hi hlt hplain
    -- In front of the scanned part is the gap behind the header, which holds no tag.
    rcases Nat.lt_or_ge i (t.header strict start).next with hfront | hbehind
    · exact opensTag_of_isSpare hi
        (isSpare_of_lt_gap_stop hi (by rw [hheader.gap_movetext_stop]; exact hfront)) hplain
    · have hsize : (t.header strict start).next < t.size := by
        have := hmovetext.next_le
        omega
      apply hmovetext.no_header i hbehind (by omega)
      rw [← zone_eq_zone hnext (hheader.zone_next hsize) hbehind]
      exact hplain

end Scorebook.Text
