import Scorebook.Proofs.Catalogue.Extents

/-!
# Headers read twice

A header is scanned while its game is catalogued, with all of the text in view, and again when the
game is read, with nothing in view behind the header. A malformed pair may have looked far into the
movetext before it failed, so the second scan sees less than the first. It comes to the same all the
same: `Text.AgreeBelow` says that two texts share their bytes up to some offset, and every scanner
that ends before that offset ends at the same place in both.
-/

namespace Scorebook.Text

/-- The texts have the same bytes below `n`. -/
def AgreeBelow (t u : Text) (n : Nat) : Prop :=
  ∀ i, i < n → t[i]? = u[i]?

variable {t u : Text} {n pos start stop quote bracket next : Nat} {b : UInt8}
  {p : UInt8 → Bool} {tag : RawTag} {strict : Bool}

/-- A view agrees with its text up to where it ends. -/
theorem agreeBelow_upTo (t : Text) (n : Nat) : t.AgreeBelow (t.upTo n) n := by
  intro i hi
  rw [getElem?_upTo, if_pos hi]

namespace AgreeBelow

variable (h : t.AgreeBelow u n)

include h

theorem symm : u.AgreeBelow t n :=
  fun i hi => (h i hi).symm

/-- A byte in front of the limit is in both texts. -/
theorem getElem? (hb : t[pos]? = some b) (hlt : pos < n) : u[pos]? = some b :=
  h pos hlt ▸ hb

/-- A text that is over before the texts part is over at the same place in the other. -/
theorem size_eq (hlt : t.size < n) : u.size = t.size := by
  have hend : t[t.size]? = none := getElem?_eq_none_iff.2 (Nat.le_refl _)
  have hle : u.size ≤ t.size := by
    rw [h t.size hlt] at hend
    exact getElem?_eq_none_iff.1 hend
  have hendu : u[u.size]? = none := getElem?_eq_none_iff.2 (Nat.le_refl _)
  have hge : t.size ≤ u.size := by
    rw [← h u.size (by omega)] at hendu
    exact getElem?_eq_none_iff.1 hendu
  omega

/-- An offset in front of the limit is in both texts or in none. -/
theorem lt_size (hlt : pos < n) (hpos : pos < t.size) : pos < u.size :=
  lt_size_of_getElem? (h.getElem? (getElem?_eq_some_iff.2 ⟨hpos, rfl⟩) hlt)

/-- A text that is over where the texts part has all bytes up to there. -/
theorem size_eq_of_le (hn : n ≤ t.size) (hend : u.size ≤ n) : u.size = n := by
  rcases Nat.lt_or_ge u.size n with hlt | hge
  · have hsize := h.symm.size_eq hlt
    omega
  · omega

/-- A text that ends in front of the limit is as long as any that agrees with it. -/
theorem size_eq_of_stop (hle : t.size ≤ n) (hend : n ≤ t.size → u.size ≤ n) :
    u.size = t.size := by
  rcases Nat.lt_or_ge t.size n with hlt | hge
  · exact h.size_eq hlt
  · rw [h.size_eq_of_le hge (hend hge)]
    omega

/-! ## Small scanners

A scanner that ends before the texts part ends at the same place in both. One that ends just there
does so as well if the other text is over there.
-/

/-- What is found up to the limit is found in both texts. -/
theorem seek_of_le (hle : t.seek p pos ≤ n) (hend : n ≤ t.seek p pos → u.size ≤ n) :
    u.seek p pos = t.seek p pos := by
  fun_induction Text.seek t p pos with
  | case1 pos hpos hp =>
    rcases Nat.lt_or_ge pos n with hlt | hge
    · exact seek_of_match (h.getElem? (getElem?_eq_some_iff.2 ⟨hpos, rfl⟩) hlt) hp
    · have hsize := h.size_eq_of_le (by omega) (hend hge)
      rw [seek_of_size_le (by omega)]
      omega
  | case2 pos hpos hp ih =>
    have hlow : pos + 1 ≤ t.seek p (pos + 1) := le_seek hpos
    obtain ⟨hposu, hbyte⟩ := getElem?_eq_some_iff.1
      (h.getElem? (getElem?_eq_some_iff.2 ⟨hpos, rfl⟩) (by omega))
    rw [Text.seek, dif_pos hposu, hbyte, if_neg hp]
    exact ih hle hend
  | case3 pos hpos =>
    have hsize := h.size_eq_of_stop hle hend
    rw [Text.seek, dif_neg (by omega), hsize]

/-- What is found in front of the limit is found in both texts. -/
theorem seek (hlt : t.seek p pos < n) : u.seek p pos = t.seek p pos :=
  h.seek_of_le (Nat.le_of_lt hlt) fun hge => by omega

/-- Lines start in the same places up to the limit. -/
theorem atLineStart (hle : pos ≤ n) : u.atLineStart pos = t.atLineStart pos := by
  cases pos with
  | zero => rfl
  | succ pos => rw [Text.atLineStart, Text.atLineStart, h pos hle]

/-- A gap has the same comments and the same problem in both. -/
theorem gapFrom_of_le {comments : Array Span} (hle : (t.gapFrom pos comments).stop ≤ n)
    (hend : n ≤ (t.gapFrom pos comments).stop → u.size ≤ n) :
    u.gapFrom pos comments = t.gapFrom pos comments := by
  -- By the recursion of `gapFrom`: wherever the gap goes on, it does so in front of `n`, and where
  -- it ends both texts have the same byte or none.
  fun_induction Text.gapFrom t pos comments with
  | case1 pos comments hb =>
    have hbu : u[pos]? = none := by
      rcases Nat.lt_or_ge pos n with hlt | hge
      · exact h pos hlt ▸ hb
      · exact getElem?_eq_none_iff.2 (Nat.le_trans (hend hge) hge)
    exact gapFrom_of_not_inGap (by simp [inGap, hbu]) comments
  | case2 pos comments b hb hblank ih =>
    have hlow := le_gapFrom_stop t (pos + 1) comments
    rw [gapFrom_of_isBlank (h.getElem? hb (by omega)) hblank]
    exact ih hle hend
  | case3 pos comments b hb hblank hescape eol heol ih =>
    have hpos : pos ≤ eol := le_lineEnd (Nat.le_of_lt (lt_size_of_getElem? hb))
    have hlow := le_gapFrom_stop t (eol + 1) comments
    have hline : u.lineEnd pos = eol := h.seek (show eol < n by omega)
    rw [gapFrom_of_getElem? (h.getElem? hb (by omega)), if_neg hblank,
      h.atLineStart (by omega), if_pos hescape, hline, if_pos (h.lt_size (by omega) heol)]
    exact ih hle hend
  | case4 pos comments b hb hblank hescape eol heol =>
    have hpos := lt_size_of_getElem? hb
    have hle : t.size ≤ n := hle
    have hall : eol = t.size := Nat.le_antisymm (lineEnd_le_size t pos) (Nat.not_lt.1 heol)
    have hline : u.lineEnd pos = eol :=
      h.seek_of_le (show eol ≤ n by omega) fun hge => hend (Nat.le_trans hge (Nat.le_of_eq hall))
    have hsize := h.size_eq_of_stop hle hend
    rw [gapFrom_of_getElem? (h.getElem? hb (by omega)), if_neg hblank,
      h.atLineStart (by omega), if_pos hescape, hline, hsize, if_neg heol]
  | case5 pos comments eol hb hblank hescape ih =>
    have hlow := le_gapFrom_stop t eol (comments.push ⟨pos + 1, eol⟩)
    have hpos : pos < eol := lt_lineEnd hb (by decide)
    have hline : u.lineEnd pos = eol := by
      refine h.seek_of_le (show eol ≤ n by omega) fun hge => hend ?_
      have : n ≤ eol := hge
      omega
    rw [gapFrom_of_getElem? (h.getElem? hb (by omega)), if_neg hblank,
      h.atLineStart (by omega), if_neg hescape, if_pos rfl, hline]
    exact ih hle hend
  | case6 pos comments b hb hblank hescape hcomment hbrace close hclose ih =>
    have hpos : pos ≤ close := le_seek (Nat.le_of_lt (lt_size_of_getElem? hb))
    have hlow := le_gapFrom_stop t (close + 1) (comments.push ⟨pos + 1, close⟩)
    have hseek : u.seek (· == Byte.closeBrace) pos = close := h.seek (show close < n by omega)
    rw [gapFrom_of_getElem? (h.getElem? hb (by omega)), if_neg hblank,
      h.atLineStart (by omega), if_neg hescape, if_neg hcomment, if_pos hbrace, hseek,
      if_pos (h.lt_size (by omega) hclose)]
    exact ih hle hend
  | case7 pos comments b hb hblank hescape hcomment hbrace close hclose =>
    have hpos := lt_size_of_getElem? hb
    have hle : t.size ≤ n := hle
    have hall : close = t.size := Nat.le_antisymm (seek_le_size ..) (Nat.not_lt.1 hclose)
    have hseek : u.seek (· == Byte.closeBrace) pos = close :=
      h.seek_of_le (show close ≤ n by omega) fun hge => hend (Nat.le_trans hge (Nat.le_of_eq hall))
    have hsize := h.size_eq_of_stop hle hend
    rw [gapFrom_of_getElem? (h.getElem? hb (by omega)), if_neg hblank,
      h.atLineStart (by omega), if_neg hescape, if_neg hcomment, if_pos hbrace, hseek, hsize,
      if_neg hclose]
  | case8 pos comments b hb hblank hescape hcomment hbrace =>
    rcases Nat.lt_or_ge pos n with hlt | hge
    · rw [gapFrom_of_getElem? (h.getElem? hb hlt), if_neg hblank, h.atLineStart (Nat.le_of_lt hlt),
        if_neg hescape, if_neg hcomment, if_neg hbrace]
    · exact gapFrom_of_not_inGap (inGap_of_size_le (Nat.le_trans (hend hge) hge)) comments

/-- A gap that ends in front of the limit is the same. -/
theorem gapFrom {comments : Array Span} (hlt : (t.gapFrom pos comments).stop < n) :
    u.gapFrom pos comments = t.gapFrom pos comments :=
  h.gapFrom_of_le (Nat.le_of_lt hlt) fun hge => by omega

theorem gap (hlt : (t.gap pos).stop < n) : u.gap pos = t.gap pos :=
  h.gapFrom hlt

/-- A gap in a pair that ends in front of the limit is passed in both texts. -/
theorem gapInTag (hok : t.gapInTag pos = .ok stop) (hlt : stop < n) :
    u.gapInTag pos = .ok stop := by
  obtain ⟨hproblem, rfl⟩ := gapInTag_eq_ok_iff.1 hok
  rw [gapInTag_eq_ok_iff, h.gap hlt]
  exact ⟨hproblem, rfl⟩

/-- Whether a value goes on behind a backslash depends on the byte behind it, but a value that does
go on takes that byte in. -/
theorem valueStop_of_le (hle : t.valueStop pos ≤ n) (hend : n ≤ t.valueStop pos → u.size ≤ n) :
    u.valueStop pos = t.valueStop pos := by
  -- By the recursion of `valueStop`, which looks one byte ahead behind a backslash.
  fun_induction Text.valueStop t pos with
  | case1 pos hb =>
    rcases Nat.lt_or_ge pos n with hlt | hge
    · have hbu : u[pos]? = none := h pos hlt ▸ hb
      exact valueStop_of_size_le (getElem?_eq_none_iff.1 hbu)
    · exact valueStop_of_size_le (Nat.le_trans (hend hge) hge)
  | case2 pos b hb hescape ih =>
    have hlow := le_valueStop t (pos + 2)
    rw [valueStop_of_getElem? (h.getElem? hb (by omega)), ← h (pos + 1) (by omega), if_pos hescape]
    exact ih hle hend
  | case3 pos b hb hescape hstop =>
    have hplain : (b == Byte.backslash) = false := by
      cases hslash : b == Byte.backslash with
      | false => rfl
      | true =>
        rw [beq_iff_eq.1 hslash] at hstop
        cases hstop
    rcases Nat.lt_or_ge pos n with hlt | hge
    · rw [valueStop_of_getElem? (h.getElem? hb hlt), hplain, Bool.false_and,
        if_neg (by decide), if_pos hstop]
    · exact valueStop_of_size_le (Nat.le_trans (hend hge) hge)
  | case4 pos b hb hescape hstop ih =>
    have hlow := le_valueStop t (pos + 1)
    -- Where the other text is over, no byte is there to be escaped.
    have hescape' : ¬(b == Byte.backslash && u[pos + 1]?.any isEscapable) = true := by
      rcases Nat.lt_or_ge (pos + 1) n with hlt | hge
      · rwa [← h (pos + 1) hlt]
      · rw [getElem?_eq_none_iff.2 (Nat.le_trans (hend (by omega)) hge)]
        simp
    rw [valueStop_of_getElem? (h.getElem? hb (by omega)), if_neg hescape', if_neg hstop]
    exact ih hle hend

/-- A value that ends in front of the limit ends in the same place. -/
theorem valueStop (hlt : t.valueStop pos < n) : u.valueStop pos = t.valueStop pos :=
  h.valueStop_of_le (Nat.le_of_lt hlt) fun hge => by omega

/-! ## Tag pairs -/

/-- A pair that closes in front of the limit is a pair in both texts. -/
theorem pair (hpair : t.Pair start tag quote bracket) (hstart : start < t.size)
    (hlt : bracket < n) : u.Pair start tag quote bracket := by
  have hname := hpair.name_lt hstart
  have hquote := hpair.name_le_quote
  have hstop := hpair.quote_lt_stop
  have hbracket := hpair.stop_lt_bracket
  -- The name, the value and the bracket lie in front of `n`, each behind the one before.
  have hend : t.seek (!Byte.isName ·) tag.name.start < n := by
    rw [hpair.name_stop]
    omega
  have hword : t.seek endsTagName tag.name.stop < n := by
    rw [hpair.name_whole]
    omega
  have hvalue : t.valueStop (quote + 1) < n := by
    rw [hpair.value_stop]
    omega
  exact {
    gap_name := h.gapInTag hpair.gap_name (by omega)
    name_stop := by rw [h.seek hend, hpair.name_stop]
    name_ne := hpair.name_ne
    name_whole := by rw [h.seek hword, hpair.name_whole]
    gap_quote := h.gapInTag hpair.gap_quote (by omega)
    opening := h.getElem? hpair.opening (by omega)
    value_start := hpair.value_start
    value_stop := by rw [h.valueStop hvalue, hpair.value_stop]
    closing := h.getElem? hpair.closing (by omega)
    gap_bracket := h.gapInTag hpair.gap_bracket hlt
    close := h.getElem? hpair.close hlt }

/-- A pair that ends up to the limit is read from both texts. -/
theorem tagPair (hok : t.tagPair start = .ok (tag, next)) (hstart : start < t.size)
    (hle : next ≤ n) : u.tagPair start = .ok (tag, next) := by
  obtain ⟨quote, bracket, hpair, rfl⟩ := tagPair_eq_ok_iff.1 hok
  exact tagPair_eq_ok_iff.2 ⟨quote, bracket, h.pair hpair hstart hle, rfl⟩

end AgreeBelow

/-! ## Headers -/

/-- A search that ends where the view does finds nothing in view and ends there as well. -/
theorem seek_upTo (hle : t.seek p pos ≤ n) : (t.upTo n).seek p pos = t.seek p pos :=
  (agreeBelow_upTo t n).seek_of_le hle fun _ => Nat.min_le_left ..

/-- A pair that ends in view is read the same, and a pair that fails with all of the text in view
fails within less of it. -/
theorem tagPair_upTo_of_ok (hok : t.tagPair start = .ok (tag, next)) (hstart : start < t.size)
    (hle : next ≤ n) : (t.upTo n).tagPair start = .ok (tag, next) :=
  (agreeBelow_upTo t n).tagPair hok hstart hle

/-- A pair that fails cannot be read from less of the text. -/
theorem tagPair_upTo_of_error {problem : Problem} (herror : t.tagPair start = .error problem)
    (hstart : start < (t.upTo n).size) :
    ∃ problem', (t.upTo n).tagPair start = .error problem' := by
  cases hpair : (t.upTo n).tagPair start with
  | error problem' => exact ⟨problem', rfl⟩
  | ok found =>
    obtain ⟨tag, next⟩ := found
    have hle := le_size_of_tagPair hpair
    rw [size_upTo] at hle
    rw [(agreeBelow_upTo t n).symm.tagPair hpair hstart (by omega)] at herror
    cases herror

/-- A gap in view ends with the view, and has nothing in it, if only blanks follow. -/
theorem gap_upTo_of_blanks (hle : pos ≤ n)
    (hblank : ∀ i, pos ≤ i → i < n → t[i]?.any Byte.isBlank = true) :
    (t.upTo n).gap pos = ⟨n, #[], none⟩ := by
  have hsame : (t.upTo n).gap pos = (t.upTo n).gap n := by
    apply gap_of_blanks hle
    intro i hi hlt
    rw [getElem?_upTo, if_pos hlt]
    exact hblank i hi hlt
  rw [hsame, gap_of_not_inGap (inGap_of_size_le (Nat.min_le_left ..))]

/-- No pair follows in view if only blanks do. -/
theorem getElem?_gap_upTo_of_blanks (hle : pos ≤ n)
    (hblank : ∀ i, pos ≤ i → i < n → t[i]?.any Byte.isBlank = true) :
    (t.upTo n)[((t.upTo n).gap pos).stop]? ≠ some Byte.openBracket := by
  rw [gap_upTo_of_blanks hle hblank, getElem?_eq_none_iff.2 (Nat.min_le_left ..)]
  nofun

/-- The pairs of a header lie inside it. -/
theorem headerFrom_tags_le (tags : Array RawTag) (problems : Array Problem) (hpos : pos ≤ t.size)
    (hgap : (t.gap stop).stop = pos)
    (htags : ∀ tag ∈ tags.toList, tag.name.stop ≤ stop ∧ tag.value.stop ≤ stop) :
    ∀ tag ∈ (t.headerFrom strict start pos stop tags problems).tags,
      tag.name.stop ≤ (t.headerFrom strict start pos stop tags problems).span.stop ∧
        tag.value.stop ≤ (t.headerFrom strict start pos stop tags problems).span.stop := by
  -- By the recursion of the header: each pair ends where the header goes on at the latest.
  fun_induction headerFrom t strict start pos stop tags problems with
  | case1 pos stop tags problems hb warned tag next hpair gap ih =>
    have hnext : pos < next := lt_of_tagPair (lt_size_of_getElem? hb) hpair
    have hle : stop ≤ pos := hgap ▸ le_gap_stop t stop
    apply ih (gap_stop_le (le_size_of_tagPair hpair)) rfl
    intro tag' htag'
    obtain ⟨quote, bracket, hparts, rfl⟩ := tagPair_eq_ok_iff.1 hpair
    rw [Array.toList_push, List.mem_append, List.mem_singleton] at htag'
    rcases htag' with hold | rfl
    · obtain ⟨hname, hvalue⟩ := htags tag' hold
      omega
    · have hquote := hparts.name_le_quote
      have hstop := hparts.quote_lt_stop
      have hbracket := hparts.stop_lt_bracket
      omega
  | case2 pos stop tags problems hb warned problem hpair next gap ih =>
    have hnext : pos < next := lt_lineEnd hb (by decide)
    have hle : stop ≤ pos := hgap ▸ le_gap_stop t stop
    apply ih (gap_stop_le (lineEnd_le_size t pos)) rfl
    intro tag' htag'
    obtain ⟨hname, hvalue⟩ := htags tag' htag'
    omega
  | case3 pos stop tags problems hb => exact htags

/-- The pairs of a header lie inside it. -/
theorem header_tags_le (hb : t[start]? = some Byte.openBracket)
    (htag : tag ∈ (t.header strict start).tags) :
    tag.name.stop ≤ (t.header strict start).span.stop ∧
      tag.value.stop ≤ (t.header strict start).span.stop :=
  headerFrom_tags_le #[] #[] (Nat.le_of_lt (lt_size_of_getElem? hb))
    (by rw [gap_of_openBracket hb]) nofun tag htag

/-- The pairs behind `stop` are the same in any view that ends behind the last of them and in front
of the movetext. -/
theorem headerFrom_upTo (strict' : Bool) (tags : Array RawTag) (problems problems' : Array Problem)
    (hpos : pos ≤ t.size) (hgap : (t.gap stop).stop = pos)
    (hle : (t.headerFrom strict start pos stop tags problems).span.stop ≤ n)
    (hblank : ∀ i, (t.headerFrom strict start pos stop tags problems).span.stop ≤ i → i < n →
      t[i]?.any Byte.isBlank = true) :
    ((t.upTo n).headerFrom strict' start ((t.upTo n).gap stop).stop stop tags problems').tags =
        (t.headerFrom strict start pos stop tags problems).tags ∧
      ((t.upTo n).headerFrom strict' start ((t.upTo n).gap stop).stop stop tags problems').span =
        (t.headerFrom strict start pos stop tags problems).span := by
  -- By the recursion of the header. Whatever it goes on behind lies in front of the cut.
  fun_induction headerFrom t strict start pos stop tags problems generalizing problems' with
  | case1 pos stop tags problems hb warned tag next hpair gap ih =>
    have hlt := lt_size_of_getElem? hb
    have hnext : pos < next := lt_of_tagPair hlt hpair
    have hgapnext : gap.stop ≤ t.size := gap_stop_le (le_size_of_tagPair hpair)
    have hin : next ≤ n := Nat.le_trans (headerFrom_extent _ _ rfl hgapnext).2 hle
    have hsame : ((t.upTo n).gap stop).stop = pos := by
      rw [(agreeBelow_upTo t n).gap (by omega), hgap]
    have hbn := (agreeBelow_upTo t n).getElem? hb (by omega)
    rw [hsame, headerFrom_of_tagPair hbn (tagPair_upTo_of_ok hpair hlt hin)]
    exact ih _ hgapnext rfl hle hblank
  | case2 pos stop tags problems hb warned problem hpair next gap ih =>
    have hnext : pos < next := lt_lineEnd hb (by decide)
    have hgapnext : gap.stop ≤ t.size := gap_stop_le (lineEnd_le_size t pos)
    have hin : next ≤ n := Nat.le_trans (headerFrom_extent _ _ rfl hgapnext).2 hle
    have hsame : ((t.upTo n).gap stop).stop = pos := by
      rw [(agreeBelow_upTo t n).gap (by omega), hgap]
    have hbn := (agreeBelow_upTo t n).getElem? hb (by omega)
    -- Cut off, the line may be wrong for another reason, but it is skipped all the same.
    obtain ⟨problem', hpair'⟩ := tagPair_upTo_of_error hpair (lt_size_of_getElem? hbn)
    have hline : (t.upTo n).lineEnd pos = next := seek_upTo hin
    rw [hsame, headerFrom_of_problem hbn hpair', hline]
    exact ih _ hgapnext rfl hle hblank
  | case3 pos stop tags problems hb =>
    rw [headerFrom_of_ne (getElem?_gap_upTo_of_blanks hle hblank)]
    exact ⟨rfl, rfl⟩

/-- A header is read back from any view that ends behind it and in front of its movetext. -/
theorem header_upTo {strict' : Bool} (hb : t[start]? = some Byte.openBracket)
    (hle : (t.header strict start).span.stop ≤ n) (hn : n ≤ (t.header strict start).movetext) :
    ((t.upTo n).header strict' start).tags = (t.header strict start).tags ∧
      ((t.upTo n).header strict' start).span = (t.header strict start).span := by
  have hlt := lt_header_span_stop strict hb
  have hgap : (t.gap start).stop = start := by rw [gap_of_openBracket hb]
  have hsame : ((t.upTo n).gap start).stop = start := by
    rw [(agreeBelow_upTo t n).gap (by omega), hgap]
  have hread := headerFrom_upTo strict' #[] #[] #[]
    (Nat.le_of_lt (lt_size_of_getElem? hb)) hgap hle
    fun i hi hin => (header_extent strict hb).blank hi (by omega)
  rwa [hsame] at hread

end Scorebook.Text
