import Scorebook.Proofs.Catalogue.Extents
import Scorebook.Proofs.Text.Guarded

/-!
# Scanning with every step guarded

Scanning reads single bytes, looks for bytes in all that is left of a text and cuts ranges out of
it. As in locating offsets, reading past the end of a text does no harm here, so the guarded
functions take the same steps and fail where a byte is not there or a range does not lie in the
text. So does a recursion that does not move on. A scan never fails, whatever place it starts from,
also a place behind the end of a text that was longer once (`Text.guardedNextItem_eq`).
-/

namespace Scorebook.Text

/-! ## Bytes and ranges -/

/-- As `seek`, in what is cut out from `pos` on. -/
def guardedSeek (t : Text) (p : UInt8 → Bool) (pos : Nat) : Option Nat := do
  let _ ← t.slice? ⟨pos, t.size⟩
  some (t.seek p pos)

/-- As `seek` in the text up to `stop`, reading one byte at a time. -/
def guardedFind (t : Text) (p : UInt8 → Bool) (stop pos : Nat) : Option Nat :=
  if pos < stop then do
    let b ← t[pos]?
    if p b then some pos else t.guardedFind p stop (pos + 1)
  else some stop
termination_by stop - pos

/-- As `atLineStart`. -/
def guardedAtLineStart (t : Text) : Nat → Option Bool
  | 0 => some true
  | pos + 1 => do
    let b ← t[pos]?
    some (Byte.isLineBreak b)

/-- Is the byte `b` at `pos` the one sought, and does it begin a line? Only then the byte in front
of it is looked at. -/
def guardedBegins (t : Text) (pos : Nat) (b sought : UInt8) : Option Bool :=
  if b = sought then t.guardedAtLineStart pos else some false

/-! ## Gaps and headers -/

/-- As `gapFrom`. -/
def guardedGapFrom (t : Text) (pos : Nat) (comments : Array Span) : Option Gap :=
  if h : pos < t.size then
    if Byte.isBlank t[pos] then t.guardedGapFrom (pos + 1) comments
    else do
      if ← t.guardedBegins pos t[pos] Byte.percent then
        let eol ← t.guardedSeek (· == Byte.newline) pos
        if eol < t.size then
          if pos < eol + 1 then t.guardedGapFrom (eol + 1) comments else none
        else some ⟨t.size, comments, some (.fault .unclosedEscape ⟨pos, t.size⟩)⟩
      else if t[pos] = Byte.semicolon then
        let eol ← t.guardedSeek (· == Byte.newline) pos
        if pos < eol then t.guardedGapFrom eol (comments.push ⟨pos + 1, eol⟩) else none
      else if t[pos] = Byte.openBrace then
        let close ← t.guardedSeek (· == Byte.closeBrace) pos
        if close < t.size then
          if pos < close + 1 then t.guardedGapFrom (close + 1) (comments.push ⟨pos + 1, close⟩)
          else none
        else
          some ⟨t.size, comments.push ⟨pos + 1, t.size⟩,
            some (.fault .unclosedComment ⟨pos, t.size⟩)⟩
      else some ⟨pos, comments, none⟩
  else some ⟨pos, comments, none⟩
termination_by t.size - pos

/-- As `gap`. -/
def guardedGap (t : Text) (pos : Nat) : Option Gap :=
  t.guardedGapFrom pos #[]

/-- As `opensTag`. The lookahead is cut out of the text first. -/
def guardedOpensTag (t : Text) (pos : Nat) : Option Bool :=
  if t[pos]? = some Byte.openBracket then do
    let _ ← t.slice? ⟨pos, min (pos + lookahead) t.size⟩
    some (t.opensTag pos)
  else some false

/-- As `gapInTag`. -/
def guardedGapInTag (t : Text) (pos : Nat) : Option (Except Problem Nat) := do
  let gap ← t.guardedGap pos
  match gap.problem? with
  | some problem => some (.error problem)
  | none => some (.ok gap.stop)

/-- As `tagName`. -/
def guardedTagName (t : Text) (start : Nat) : Option (Except Problem (Span × Nat)) := do
  match ← t.guardedGapInTag (start + 1) with
  | .error problem => some (.error problem)
  | .ok pos =>
    let stop ← t.guardedSeek (!Byte.isName ·) pos
    let wordStop ← t.guardedSeek endsTagName stop
    if stop = pos ∨ wordStop ≠ stop then
      some (.error (.fault .badTagName ⟨pos, min (max wordStop (pos + 1)) t.size⟩))
    else
      match ← t.guardedGapInTag stop with
      | .error problem => some (.error problem)
      | .ok quote => some (.ok (⟨pos, stop⟩, quote))

/-- As `tagPair`. A value is read byte by byte as far as there are bytes. -/
def guardedTagPair (t : Text) (start : Nat) : Option (Except Problem (RawTag × Nat)) := do
  match ← t.guardedTagName start with
  | .error problem => some (.error problem)
  | .ok (name, quote) =>
    match t.tagValue start quote with
    | .error problem => some (.error problem)
    | .ok value =>
      match ← t.guardedGapInTag (value.stop + 1) with
      | .error problem => some (.error problem)
      | .ok bracket =>
        if t[bracket]? = some Byte.closeBracket then some (.ok (⟨name, value⟩, bracket + 1))
        else some (.error (.fault .unclosedTag ⟨start, bracket⟩))

/-- As `headerFrom`. -/
def guardedHeaderFrom (t : Text) (strict : Bool) (start pos stop : Nat) (tags : Array RawTag)
    (problems : Array Problem) : Option Header :=
  if _h : t[pos]? = some Byte.openBracket then do
    let problems := if strict then problems ++ t.tabsInTag pos else problems
    match ← t.guardedTagPair pos with
    | .ok (tag, next) =>
      let gap ← t.guardedGap next
      if pos < gap.stop then
        t.guardedHeaderFrom strict start gap.stop next (tags.push tag)
          (problems ++ gap.problem?.toList)
      else none
    | .error problem =>
      let next := t.lineEnd pos
      let gap ← t.guardedGap next
      if pos < gap.stop then
        t.guardedHeaderFrom strict start gap.stop next tags
          (problems ++ problem :: gap.problem?.toList)
      else none
  else do
    let movetext ← t.guardedFind (!Byte.isBlank ·) pos stop
    some ⟨⟨start, stop⟩, pos, movetext, tags.toList, problems.toList⟩
termination_by t.size - pos
decreasing_by
  all_goals have hlt := lt_size_of_getElem? _h
  all_goals omega

/-- As `header`. -/
def guardedHeader (t : Text) (strict : Bool) (start : Nat) : Option Header :=
  t.guardedHeaderFrom strict start start start #[] #[]

/-! ## Items -/

/-- As `movetextFrom`. -/
def guardedMovetextFrom (t : Text) (pos last : Nat) (problems : Array Problem) :
    Option MovetextExtent := do
  let gap ← t.guardedGap pos
  let problems := problems ++ gap.problem?.toList
  if t.size ≤ gap.stop then some ⟨last, gap.stop, problems.toList⟩
  else
    if ← t.guardedOpensTag gap.stop then some ⟨last, gap.stop, problems.toList⟩
    else
      let stop := t.seek endsStretch (gap.stop + 1)
      if pos < stop then t.guardedMovetextFrom stop stop problems else none
termination_by t.size - pos
decreasing_by
  have hle : stop ≤ t.size := seek_le_size ..
  omega

/-- As `scanGame`. The checksum is that of the header cut out. -/
def guardedScanGame (t : Text) (strict : Bool) (start : Nat) :
    Option (Entry × Nat × List Problem) := do
  let header ← t.guardedHeader strict start
  let extent ← t.guardedMovetextFrom header.next header.next #[]
  let _ ← t.slice? header.span
  some (⟨0, header.span, ⟨header.movetext, max extent.last header.movetext⟩,
      t.checksum header.span, Verdict.ofProblems header.problems⟩,
    extent.next, header.problems ++ extent.problems)

/-- As `resync`. -/
def guardedResync (t : Text) (pos : Nat) : Option Nat :=
  if pos + 1 < t.size then do
    let b ← t[pos + 1]?
    if ← t.guardedBegins (pos + 1) b Byte.openBracket then some (pos + 1)
    else t.guardedResync (pos + 1)
  else some t.size
termination_by t.size - pos

/-- As `itemAt`. -/
def guardedItemAt (t : Text) (strict : Bool) (pos : Nat) : Option (Item × List Problem) :=
  if t.size ≤ pos then some (.nothing, [])
  else do
    let b ← t[pos]?
    if b = Byte.openBracket then
      let (entry, next, problems) ← t.guardedScanGame strict pos
      some (.game entry next, problems)
    else
      let next ← t.guardedResync pos
      some (.stray next, [.fault .unexpectedHeaderText ⟨pos, min (t.lineEnd pos) next⟩])

/-- As `nextItem`. -/
def guardedNextItem (t : Text) (strict : Bool) (pos : Nat) : Option (Item × List Problem) := do
  let gap ← t.guardedGap pos
  let (item, problems) ← t.guardedItemAt strict gap.stop
  some (item, gap.problem?.toList ++ problems)

/-! ## No guard fails -/

variable {t : Text} {strict : Bool} {pos start stop : Nat}

/-- Seeking stays in the text. -/
theorem guardedSeek_eq (p : UInt8 → Bool) (h : pos ≤ t.size) :
    t.guardedSeek p pos = some (t.seek p pos) := by
  rw [guardedSeek, slice?_eq h (Nat.le_refl _)]
  rfl

/-- Seeking up to a stop stays in front of it. -/
theorem guardedFind_eq (p : UInt8 → Bool) (hstop : stop ≤ t.size) :
    t.guardedFind p stop pos = some ((t.upTo stop).seek p pos) := by
  have hsize : (t.upTo stop).size = stop := Nat.min_eq_left hstop
  have hbyte {pos : Nat} (h : pos < (t.upTo stop).size) : t[pos]? = some (t.upTo stop)[pos] := by
    have hview := getElem?_upTo t stop pos
    rwa [if_pos (hsize ▸ h), getElem?_pos (t.upTo stop) pos h, eq_comm] at hview
  fun_induction seek (t.upTo stop) p pos with
  | case1 pos h hp =>
    rw [guardedFind, if_pos (hsize ▸ h), hbyte h, Option.bind_eq_bind, Option.bind_some, if_pos hp]
  | case2 pos h hp ih =>
    rw [guardedFind, if_pos (hsize ▸ h), hbyte h, Option.bind_eq_bind, Option.bind_some, if_neg hp]
    exact ih
  | case3 pos h => rw [guardedFind, if_neg (hsize ▸ h), hsize]

/-- Whether a line starts is told by a byte of the text. -/
theorem guardedAtLineStart_eq (h : pos ≤ t.size) :
    t.guardedAtLineStart pos = some (t.atLineStart pos) := by
  cases pos with
  | zero => rfl
  | succ pos =>
    rw [guardedAtLineStart, atLineStart, getElem?_pos t pos h]
    rfl

/-- Whether a byte begins a line is told by the bytes of the text. -/
theorem guardedBegins_eq (b sought : UInt8) (h : pos ≤ t.size) :
    t.guardedBegins pos b sought = some (b == sought && t.atLineStart pos) := by
  rw [guardedBegins, guardedAtLineStart_eq h]
  split
  · next heq => rw [heq, beq_self_eq_true, Bool.true_and]
  · next hne => rw [beq_eq_false_iff_ne.2 hne, Bool.false_and]

/-- The end of a line is found in the text. -/
theorem guardedLineEnd_eq (h : pos ≤ t.size) :
    t.guardedSeek (· == Byte.newline) pos = some (t.lineEnd pos) :=
  guardedSeek_eq _ h

/-- A step over a gap looks for the end of a comment from its start on, so it always finds a place
to go on from that lies behind. -/
theorem guardedGapFrom_of_not_blank {b : UInt8} (comments : Array Span) (hb : t[pos]? = some b)
    (hblank : ¬ Byte.isBlank b) :
    t.guardedGapFrom pos comments =
      if b == Byte.percent && t.atLineStart pos then
        if t.lineEnd pos < t.size then t.guardedGapFrom (t.lineEnd pos + 1) comments
        else some ⟨t.size, comments, some (.fault .unclosedEscape ⟨pos, t.size⟩)⟩
      else if b = Byte.semicolon then
        t.guardedGapFrom (t.lineEnd pos) (comments.push ⟨pos + 1, t.lineEnd pos⟩)
      else if b = Byte.openBrace then
        if t.seek (· == Byte.closeBrace) pos < t.size then
          t.guardedGapFrom (t.seek (· == Byte.closeBrace) pos + 1)
            (comments.push ⟨pos + 1, t.seek (· == Byte.closeBrace) pos⟩)
        else
          some ⟨t.size, comments.push ⟨pos + 1, t.size⟩,
            some (.fault .unclosedComment ⟨pos, t.size⟩)⟩
      else some ⟨pos, comments, none⟩ := by
  -- At the byte that is looked at every check passes, and the two searches move on from it.
  obtain ⟨hlt, rfl⟩ := getElem?_eq_some_iff.1 hb
  have hsize := Nat.le_of_lt hlt
  have hline : pos < t.lineEnd pos + 1 := Nat.lt_succ_of_le (le_lineEnd hsize)
  have hclose : pos < t.seek (· == Byte.closeBrace) pos + 1 := Nat.lt_succ_of_le (le_seek hsize)
  rw [guardedGapFrom, dif_pos hlt, if_neg hblank, guardedBegins_eq _ _ hsize,
    guardedLineEnd_eq hsize, guardedSeek_eq _ hsize]
  simp only [Option.bind_eq_bind, Option.bind_some]
  rw [if_pos hline, if_pos hclose]
  by_cases hsemicolon : t[pos] = Byte.semicolon
  · have hbehind : pos < t.lineEnd pos := lt_lineEnd hb (by rw [hsemicolon]; decide)
    rw [if_pos hbehind]
  · rw [if_neg hsemicolon, if_neg hsemicolon]

/-- A gap is passed with every look in range, and every step moves on. -/
theorem guardedGapFrom_eq (t : Text) (pos : Nat) (comments : Array Span) :
    t.guardedGapFrom pos comments = some (t.gapFrom pos comments) := by
  fun_induction gapFrom t pos comments with
  | case1 pos comments hnone =>
    rw [guardedGapFrom, dif_neg (Nat.not_lt.2 (getElem?_eq_none_iff.1 hnone))]
  | case2 pos comments b hb hblank ih =>
    obtain ⟨hlt, rfl⟩ := getElem?_eq_some_iff.1 hb
    rw [guardedGapFrom, dif_pos hlt, if_pos hblank]
    exact ih
  | case3 pos comments b hb hblank hescape eol heol ih =>
    rw [guardedGapFrom_of_not_blank comments hb hblank, if_pos hescape, if_pos heol]
    exact ih
  | case4 pos comments b hb hblank hescape eol heol =>
    rw [guardedGapFrom_of_not_blank comments hb hblank, if_pos hescape, if_neg heol]
  | case5 pos comments eol hb hblank hescape ih =>
    rw [guardedGapFrom_of_not_blank comments hb hblank, if_neg hescape, if_pos rfl]
    exact ih
  | case6 pos comments b hb hblank hescape hsemicolon hbrace close hclose ih =>
    rw [guardedGapFrom_of_not_blank comments hb hblank, if_neg hescape, if_neg hsemicolon,
      if_pos (beq_iff_eq.1 hbrace), if_pos hclose]
    exact ih
  | case7 pos comments b hb hblank hescape hsemicolon hbrace close hclose =>
    rw [guardedGapFrom_of_not_blank comments hb hblank, if_neg hescape, if_neg hsemicolon,
      if_pos (beq_iff_eq.1 hbrace), if_neg hclose]
  | case8 pos comments b hb hblank hescape hsemicolon hbrace =>
    rw [guardedGapFrom_of_not_blank comments hb hblank, if_neg hescape, if_neg hsemicolon,
      if_neg (mt beq_iff_eq.2 hbrace)]

/-- So is a gap from its beginning. -/
theorem guardedGap_eq (t : Text) (pos : Nat) : t.guardedGap pos = some (t.gap pos) :=
  guardedGapFrom_eq t pos #[]

/-- The lookahead stays in its window and in the text. -/
theorem guardedOpensTag_eq (t : Text) (pos : Nat) :
    t.guardedOpensTag pos = some (t.opensTag pos) := by
  unfold guardedOpensTag
  split
  · next hb =>
    have hlt := lt_size_of_getElem? hb
    rw [slice?_eq (by omega) (Nat.min_le_right ..)]
    rfl
  · next hb => rw [opensTag, if_neg hb]

/-- A gap between the parts of a pair is passed with every look in range. -/
theorem guardedGapInTag_eq (t : Text) (pos : Nat) :
    t.guardedGapInTag pos = some (t.gapInTag pos) := by
  rw [guardedGapInTag, guardedGap_eq, gapInTag, Option.bind_eq_bind, Option.bind_some]
  cases (t.gap pos).problem? <;> rfl

/-- The name of a pair is read with every look in range. -/
theorem guardedTagName_eq (hstart : start < t.size) :
    t.guardedTagName start = some (t.tagName start) := by
  rw [guardedTagName, guardedGapInTag_eq, tagName]
  simp only [Option.bind_eq_bind, Option.bind_some]
  cases hgap : t.gapInTag (start + 1) with
  | error problem => rfl
  | ok pos =>
    simp only
    rw [guardedSeek_eq _ (le_size_of_gapInTag hstart hgap), Option.bind_some,
      guardedSeek_eq _ (seek_le_size ..), Option.bind_some]
    split
    · rfl
    · rw [guardedGapInTag_eq, Option.bind_some]
      cases t.gapInTag (t.seek (!Byte.isName ·) pos) <;> rfl

/-- So is the whole pair. -/
theorem guardedTagPair_eq (hstart : start < t.size) :
    t.guardedTagPair start = some (t.tagPair start) := by
  rw [guardedTagPair, guardedTagName_eq hstart, tagPair]
  simp only [Option.bind_eq_bind, Option.bind_some]
  cases t.tagName start with
  | error problem => rfl
  | ok named =>
    obtain ⟨name, quote⟩ := named
    simp only
    cases t.tagValue start quote with
    | error problem => rfl
    | ok value =>
      simp only
      rw [guardedGapInTag_eq, Option.bind_some]
      cases t.gapInTag (value.stop + 1) with
      | error problem => rfl
      | ok bracket =>
        simp only
        split <;> rfl

/-- Pairs are read with every look in range, and every step moves on. -/
theorem guardedHeaderFrom_eq (tags : Array RawTag) (problems : Array Problem)
    (hpos : pos ≤ t.size) :
    t.guardedHeaderFrom strict start pos stop tags problems =
      some (t.headerFrom strict start pos stop tags problems) := by
  fun_induction headerFrom t strict start pos stop tags problems with
  | case1 pos stop tags problems hb warned tag next hpair gap ih =>
    have hlt := lt_size_of_getElem? hb
    have hnext := lt_of_tagPair hlt hpair
    have hgap : next ≤ gap.stop := le_gap_stop t next
    rw [guardedHeaderFrom, dif_pos hb, guardedTagPair_eq hlt, hpair]
    simp only [Option.bind_eq_bind, Option.bind_some, guardedGap_eq]
    rw [if_pos (show pos < gap.stop by omega)]
    exact ih (gap_stop_le (le_size_of_tagPair hpair))
  | case2 pos stop tags problems hb warned problem hpair next gap ih =>
    have hlt := lt_size_of_getElem? hb
    have hnext : pos < next := lt_lineEnd hb (by decide)
    have hgap : next ≤ gap.stop := le_gap_stop t next
    rw [guardedHeaderFrom, dif_pos hb, guardedTagPair_eq hlt, hpair]
    simp only [Option.bind_eq_bind, Option.bind_some, guardedGap_eq]
    rw [if_pos (show pos < gap.stop by omega)]
    exact ih (gap_stop_le (lineEnd_le_size t pos))
  | case3 pos stop tags problems hb =>
    rw [guardedHeaderFrom, dif_neg hb, guardedFind_eq _ hpos]
    rfl

/-- So is a whole header. -/
theorem guardedHeader_eq (strict : Bool) (hstart : start ≤ t.size) :
    t.guardedHeader strict start = some (t.header strict start) :=
  guardedHeaderFrom_eq #[] #[] hstart

/-- Movetext is scanned with every look in range, and every step moves on. -/
theorem guardedMovetextFrom_eq (t : Text) (pos last : Nat) (problems : Array Problem) :
    t.guardedMovetextFrom pos last problems = some (t.movetextFrom pos last problems) := by
  fun_induction movetextFrom t pos last problems with
  | case1 pos last problems gap warned hend =>
    rw [guardedMovetextFrom, guardedGap_eq]
    simp only [Option.bind_eq_bind, Option.bind_some, guardedOpensTag_eq]
    -- At the end of the text both scanners stop, whether or not a tag pair opens there.
    rcases hend with hsize | hopens
    · rw [if_pos hsize]
    · rw [if_pos hopens, ite_self]
  | case2 pos last problems gap warned hend stop ih =>
    have hgap : pos ≤ gap.stop := le_gap_stop t pos
    obtain ⟨hsize, hopens⟩ := not_or.1 hend
    -- The search starts behind the byte the gap ends at.
    have hstop : gap.stop + 1 ≤ stop := le_seek (by omega)
    rw [guardedMovetextFrom, guardedGap_eq]
    simp only [Option.bind_eq_bind, Option.bind_some, guardedOpensTag_eq]
    rw [if_neg hsize, if_neg hopens, if_pos (show pos < stop by omega)]
    exact ih

/-- A game is scanned with every look in range. -/
theorem guardedScanGame_eq (strict : Bool) (hb : t[start]? = some Byte.openBracket) :
    t.guardedScanGame strict start = some (t.scanGame strict start) := by
  have hextent := header_extent strict hb
  have hstart : (t.header strict start).span.start ≤ (t.header strict start).span.stop := by
    rw [hextent.start_eq]
    exact Nat.le_of_lt (lt_header_span_stop strict hb)
  have hstop := Nat.le_trans hextent.stop_le_next hextent.next_le
  rw [guardedScanGame, guardedHeader_eq strict (Nat.le_of_lt (lt_size_of_getElem? hb))]
  simp only [Option.bind_eq_bind, Option.bind_some, guardedMovetextFrom_eq]
  rw [slice?_eq hstart hstop]
  rfl

/-- The next game is looked for in the text. -/
theorem guardedResync_eq (t : Text) (pos : Nat) : t.guardedResync pos = some (t.resync pos) := by
  fun_induction resync t pos with
  | case1 pos hlt hfound =>
    rw [guardedResync, if_pos hlt, getElem?_pos t (pos + 1) hlt]
    simp only [Option.bind_eq_bind, Option.bind_some, guardedBegins_eq _ _ (Nat.le_of_lt hlt)]
    rw [if_pos hfound]
  | case2 pos hlt hfound ih =>
    rw [guardedResync, if_pos hlt, getElem?_pos t (pos + 1) hlt]
    simp only [Option.bind_eq_bind, Option.bind_some, guardedBegins_eq _ _ (Nat.le_of_lt hlt)]
    rw [if_neg hfound]
    exact ih
  | case3 pos hge => rw [guardedResync, if_neg hge]

/-- Whatever comes next is found with every look in range. -/
theorem guardedItemAt_eq (t : Text) (strict : Bool) (pos : Nat) :
    t.guardedItemAt strict pos = some (t.itemAt strict pos) := by
  unfold guardedItemAt itemAt
  split
  · next hsize => rw [getElem?_eq_none_iff.2 hsize]
  · next hlt =>
    rw [getElem?_pos t pos (Nat.lt_of_not_le hlt)]
    simp only [Option.bind_eq_bind, Option.bind_some]
    split
    · next hbracket =>
      rw [guardedScanGame_eq strict (getElem?_eq_some_iff.2 ⟨_, hbracket⟩)]
      rfl
    · rw [guardedResync_eq]
      rfl

/-- A scan finds every byte it reads and every range it cuts out, wherever it starts. -/
theorem guardedNextItem_eq (t : Text) (strict : Bool) (pos : Nat) :
    t.guardedNextItem strict pos = some (t.nextItem strict pos) := by
  rw [guardedNextItem, guardedGap_eq]
  simp only [Option.bind_eq_bind, Option.bind_some, guardedItemAt_eq]
  rfl

end Scorebook.Text
