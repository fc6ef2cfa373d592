import Scorebook.Proofs.Header.Escapes

/-!
# Tags with gaps between their parts

A tag may be written with a gap in front of its name, one in front of its value and one behind the
value. Blanks, comments and escaped lines make up a gap, and which bytes do depends on where they
stand, so a `SpacedTag` has its gaps as bytes and `SpacedTag.Stands` says that each is a gap in its
place. Such a tag is read with exactly the name and the value that were written, unless its name is
followed by a vertical tab: that is a blank everywhere, but it does not end a name
(`SpacedTag.Stands.tagPair_iff`). Conversely, the value of every tag that is read is one that could
have been written (`Text.SoundValue`).
-/

namespace Scorebook

namespace Byte

/-- Every blank but one ends a name. -/
theorem endsTagName_iff_of_isBlank {b : UInt8} :
    isBlank b = true → isName b = false ∧ (Text.endsTagName b = true ↔ b ≠ verticalTab) :=
  forall_of_table (p := fun b => isBlank b = true →
    isName b = false ∧ (Text.endsTagName b = true ↔ b ≠ verticalTab)) (by decide +kernel) b

/-- A line break may not stand in a value. -/
theorem isForbidden_of_isLineBreak {b : UInt8} : isLineBreak b = true → ¬ isForbidden b = false :=
  forall_of_table (p := fun b => isLineBreak b = true → ¬ isForbidden b = false)
    (by decide +kernel) b

/-- A name has no line break. -/
theorem not_isLineBreak_of_isName {b : UInt8} : isName b = true → isLineBreak b = false :=
  forall_of_table (p := fun b => isName b = true → isLineBreak b = false) (by decide +kernel) b

end Byte

/-! ## Tags as they are written -/

/-- A tag with gaps between its parts. -/
structure SpacedTag where
  /-- The gap between the bracket and the name. -/
  before : List UInt8
  name : List UInt8
  /-- The gap between the name and the opening quote. -/
  between : List UInt8
  value : List UInt8
  /-- The gap between the closing quote and the bracket. -/
  behind : List UInt8
  name_ne : name ≠ []
  isName : ∀ b ∈ name, Byte.isName b = true
  allowed : ∀ b ∈ value, Byte.isForbidden b = false

namespace SpacedTag

/-- The tag as it is written. -/
def write (tag : SpacedTag) : List UInt8 :=
  Byte.openBracket :: (tag.before ++ (tag.name ++ (tag.between ++
    Byte.quote :: (escape tag.value ++ Byte.quote :: (tag.behind ++ [Byte.closeBracket])))))

/-- Where the name lies if the tag is written from `pos` on. -/
def nameSpan (tag : SpacedTag) (pos : Nat) : Span :=
  ⟨pos + 1 + tag.before.length, pos + 1 + tag.before.length + tag.name.length⟩

/-- Where the opening quote is if the tag is written from `pos` on. -/
def quote (tag : SpacedTag) (pos : Nat) : Nat :=
  (tag.nameSpan pos).stop + tag.between.length

/-- Where the value lies if the tag is written from `pos` on. -/
def valueSpan (tag : SpacedTag) (pos : Nat) : Span :=
  ⟨tag.quote pos + 1, tag.quote pos + 1 + (escape tag.value).length⟩

/-- Where the closing bracket is if the tag is written from `pos` on. -/
def bracket (tag : SpacedTag) (pos : Nat) : Nat :=
  (tag.valueSpan pos).stop + 1 + tag.behind.length

/-- Where the parts of the tag lie if it is written from `pos` on. -/
def raw (tag : SpacedTag) (pos : Nat) : RawTag :=
  ⟨tag.nameSpan pos, tag.valueSpan pos⟩

/-- The tag is written at `pos`, and what should be gaps are gaps there, with no comment and no
escaped line left open. -/
structure Stands (tag : SpacedTag) (t : Text) (pos : Nat) : Prop where
  written : t.holdsAt pos tag.write = true
  gap_before : t.gapInTag (pos + 1) = .ok (tag.nameSpan pos).start
  gap_between : t.gapInTag (tag.nameSpan pos).stop = .ok (tag.quote pos)
  gap_behind : t.gapInTag ((tag.valueSpan pos).stop + 1) = .ok (tag.bracket pos)

/-- The parts of a tag, each in its place. -/
structure Parts (tag : SpacedTag) (t : Text) (pos : Nat) : Prop where
  name : t.holdsAt (tag.nameSpan pos).start tag.name = true
  between : t.holdsAt (tag.nameSpan pos).stop tag.between = true
  opening : t[tag.quote pos]? = some Byte.quote
  value : t.holdsAt (tag.valueSpan pos).start (escape tag.value) = true
  closing : t[(tag.valueSpan pos).stop]? = some Byte.quote
  bracket : t[tag.bracket pos]? = some Byte.closeBracket

namespace Stands

variable {tag : SpacedTag} {t : Text} {pos : Nat} (h : tag.Stands t pos)

include h

/-- A tag that is written has each part in its place. -/
theorem parts : tag.Parts t pos := by
  have hwritten := h.written
  simp only [write, Text.holdsAt_append, Text.holdsAt, Bool.and_eq_true, beq_iff_eq,
    Bool.and_true] at hwritten
  obtain ⟨-, -, hname, hbetween, hopening, hvalue, hclosing, -, hbracket⟩ := hwritten
  exact ⟨hname, hbetween, hopening, hvalue, hclosing, hbracket⟩

/-- A name that is followed by a gap ends in that gap. -/
theorem inGap_behind_name (hne : tag.between ≠ []) : t.inGap (tag.nameSpan pos).stop = true := by
  cases hgap : t.inGap (tag.nameSpan pos).stop with
  | true => rfl
  | false =>
    have hquote := (Text.gapInTag_of_not_inGap hgap).symm.trans h.gap_between
    have hlength := List.length_pos_iff.2 hne
    simp only [Except.ok.injEq, quote] at hquote
    omega

/-- No line starts behind the name. -/
theorem not_atLineStart : t.atLineStart (tag.nameSpan pos).stop = false := by
  obtain ⟨front, last, hname⟩ := List.eq_nil_or_concat tag.name |>.resolve_left tag.name_ne
  have hheld := h.parts.name
  have hstop : (tag.nameSpan pos).stop = (tag.nameSpan pos).start + front.length + 1 := by
    simp only [nameSpan, hname, List.concat_eq_append, List.length_append, List.length_singleton]
    omega
  rw [hname, List.concat_eq_append, Text.holdsAt_append, Bool.and_eq_true, Text.holdsAt,
    Bool.and_eq_true, beq_iff_eq] at hheld
  have hlast : Byte.isName last = true := tag.isName last (by simp [hname])
  rw [hstop, Text.atLineStart, hheld.2.1, Option.any_some]
  exact Byte.not_isLineBreak_of_isName hlast

/-- The byte behind the name is no name byte. It ends the name unless it is a vertical tab. -/
theorem exists_behind_name : ∃ c, t[(tag.nameSpan pos).stop]? = some c ∧ Byte.isName c = false ∧
    (Text.endsTagName c = true ↔ tag.between.head? ≠ some Byte.verticalTab) := by
  cases hbetween : tag.between with
  | nil =>
    have hquote := h.parts.opening
    rw [quote, hbetween] at hquote
    exact ⟨Byte.quote, hquote, rfl, by simp [Text.endsTagName]⟩
  | cons c rest =>
    have hheld := h.parts.between
    rw [hbetween, Text.holdsAt, Bool.and_eq_true, beq_iff_eq] at hheld
    have hgap : t.inGap (tag.nameSpan pos).stop = true := h.inGap_behind_name (by simp [hbetween])
    rw [Text.inGap_of_getElem? hheld.1, h.not_atLineStart, Bool.and_false, Bool.or_false,
      Bool.or_eq_true, Bool.or_eq_true, beq_iff_eq, beq_iff_eq] at hgap
    refine ⟨c, hheld.1, ?_⟩
    rw [List.head?_cons, Ne, Option.some.injEq]
    rcases hgap with (hblank | rfl) | rfl
    · exact Byte.endsTagName_iff_of_isBlank hblank
    · decide
    · decide

/-- The name ends where it was written to end. -/
theorem seek_name : t.seek (!Byte.isName ·) (tag.nameSpan pos).start = (tag.nameSpan pos).stop := by
  obtain ⟨c, hc, hname, -⟩ := h.exists_behind_name
  exact Text.seek_of_holdsAt h.parts.name (fun b hb => by simp [tag.isName b hb]) hc
    (by simp [hname])

/-- The name is all of its word unless a vertical tab stands behind it. -/
theorem seek_endsTagName_iff :
    t.seek Text.endsTagName (tag.nameSpan pos).stop = (tag.nameSpan pos).stop ↔
      tag.between.head? ≠ some Byte.verticalTab := by
  obtain ⟨c, hc, -, hends⟩ := h.exists_behind_name
  rw [← hends]
  constructor
  · intro hseek
    cases hplain : Text.endsTagName c with
    | true => rfl
    | false =>
      have := Text.lt_seek hc hplain
      omega
  · exact Text.seek_of_match hc

/-- The value ends at its closing quote. -/
theorem valueStop : t.valueStop (tag.quote pos + 1) = (tag.valueSpan pos).stop :=
  Text.valueStop_escape h.parts.value tag.allowed h.parts.closing

/-- The tag is a well-formed pair unless a vertical tab stands behind its name. -/
theorem pair (hname : tag.between.head? ≠ some Byte.verticalTab) :
    t.Pair pos (tag.raw pos) (tag.quote pos) (tag.bracket pos) where
  gap_name := h.gap_before
  name_stop := h.seek_name
  name_ne := by
    have hlength := List.length_pos_iff.2 tag.name_ne
    simp only [raw, nameSpan]
    omega
  name_whole := h.seek_endsTagName_iff.2 hname
  gap_quote := h.gap_between
  opening := h.parts.opening
  value_start := rfl
  value_stop := h.valueStop
  closing := h.parts.closing
  gap_bracket := h.gap_behind
  close := h.parts.bracket

/-- The tag is read back exactly if its name is not followed by a vertical tab. -/
theorem tagPair_iff :
    t.tagPair pos = .ok (tag.raw pos, pos + tag.write.length) ↔
      tag.between.head? ≠ some Byte.verticalTab := by
  rw [Text.tagPair_eq_ok_iff]
  constructor
  · rintro ⟨quote, bracket, hpair, -⟩
    exact h.seek_endsTagName_iff.1 hpair.name_whole
  · intro hname
    refine ⟨_, _, h.pair hname, ?_⟩
    simp only [write, bracket, valueSpan, quote, nameSpan, List.length_cons, List.length_append,
      List.length_nil]
    omega

end Stands

end SpacedTag

/-! ## Values as they are read -/

/-- A value that could have been written. -/
structure Text.SoundValue (t : Text) (value : Span) : Prop where
  /-- It holds no line break, and no other control character than the tab. -/
  allowed : ∀ b ∈ t.word value, Byte.isLineBreak b = false ∧ Byte.isForbidden b = false
  /-- Every quote in it is behind a backslash, and these two are one piece. -/
  escaped : ∀ before after, t.word value = before ++ Byte.quote :: after →
    ∃ head, before = head ++ [Byte.backslash] ∧
      pieces (t.word value) = pieces head ++ .escaped Byte.quote :: pieces after
  /-- What the scanner took for escapes are the escapes that are removed. -/
  alike : t.valuePieces value.start = pieces (t.word value)
  /-- Removing the escapes leaves what the pieces mean, one byte each. -/
  meant : unescape (t.word value) = (t.valuePieces value.start).map ValuePiece.byte

namespace Text

variable {t : Text} {start next quote bracket : Nat} {tag : RawTag}

/-- The value of a well-formed pair could have been written. -/
theorem Pair.soundValue (h : t.Pair start tag quote bracket) : t.SoundValue tag.value := by
  have hspan : tag.value = ⟨tag.value.start, t.valueStop tag.value.start⟩ := by
    rw [h.value_start, h.value_stop, ← h.value_start]
  have halike : t.valuePieces tag.value.start = pieces (t.word tag.value) := by
    rw [hspan]
    exact t.valuePieces_eq tag.value.start
  have hpieces := t.allowsPiece_valuePieces tag.value.start
  rw [halike] at hpieces
  refine ⟨fun b hb => ?_, fun before after hsplit => ?_, halike, ?_⟩
  · rw [← flatMap_bytes_pieces (t.word tag.value), List.mem_flatMap] at hb
    obtain ⟨piece, hpiece, hb⟩ := hb
    have hallowed := not_isForbidden_of_allowsPiece (hpieces piece hpiece) hb
    refine ⟨?_, hallowed⟩
    cases hbreak : Byte.isLineBreak b with
    | false => rfl
    | true => exact absurd hallowed (Byte.isForbidden_of_isLineBreak hbreak)
  · refine exists_escaped_of_quote (fun hplain => ?_) hsplit
    exact absurd (hpieces _ hplain) (by decide)
  · rw [halike, map_byte_pieces]

/-- The value of every tag that is read could have been written. -/
theorem soundValue_of_tagPair (h : t.tagPair start = .ok (tag, next)) : t.SoundValue tag.value := by
  obtain ⟨quote, bracket, hpair, -⟩ := tagPair_eq_ok_iff.1 h
  exact hpair.soundValue

end Text

/-- A tag with gaps between its parts is read with exactly the name and the value that were written
if and only if its name is not followed by a vertical tab; and every value that is read from a tag
could have been written, with the scanner and the removal of escapes at one about which backslashes
escape. -/
theorem SpacedTag.read_as_written {tag : SpacedTag} {t : Text} {pos : Nat} (h : tag.Stands t pos) :
    (t.tagPair pos = .ok (tag.raw pos, pos + tag.write.length) ↔
      tag.between.head? ≠ some Byte.verticalTab) ∧
    t.word (tag.raw pos).name = tag.name ∧
    t.word (tag.raw pos).value = escape tag.value ∧
    unescape (t.word (tag.raw pos).value) = tag.value ∧
    ∀ (u : Text) (start next : Nat) (found : RawTag),
      u.tagPair start = .ok (found, next) → u.SoundValue found.value := by
  have hvalue : t.word (tag.raw pos).value = escape tag.value := Text.word_of_holdsAt h.parts.value
  refine ⟨h.tagPair_iff, Text.word_of_holdsAt h.parts.name, hvalue, ?_, ?_⟩
  · rw [hvalue, unescape_escape]
  · exact fun _ _ _ _ => Text.soundValue_of_tagPair

namespace SpacedTag

/-- The tag `A` with the value `a"b\`: a comment in front of the name, the rest of a line behind it,
and an escaped line in front of the bracket. -/
def remarked : SpacedTag where
  before := [Byte.openBrace, 0x63, Byte.closeBrace, Byte.space]
  name := [0x41]
  between := [Byte.tab, Byte.semicolon, 0x78, Byte.newline]
  value := [0x61, Byte.quote, 0x62, Byte.backslash]
  behind := [Byte.newline, Byte.percent, 0x79, Byte.newline]
  name_ne := by decide
  isName := by decide +kernel
  allowed := by decide +kernel

/-- The tag with its remarks is read back, with the escapes in its value removed. -/
theorem read_as_written_of_remarked :
    remarked.Stands (.ofBytes remarked.write.toByteArray) 0 ∧
      (Text.ofBytes remarked.write.toByteArray).tagPair 0 = .ok (⟨⟨5, 6⟩, ⟨11, 17⟩⟩, 23) ∧
      unescape ((Text.ofBytes remarked.write.toByteArray).word ⟨11, 17⟩) = remarked.value := by
  have hstands : remarked.Stands (.ofBytes remarked.write.toByteArray) 0 := {
    written := Text.holdsAt_ofBytes _
    gap_before := Text.gapInTag_eq_ok_iff.2 (by decide +kernel)
    gap_between := Text.gapInTag_eq_ok_iff.2 (by decide +kernel)
    gap_behind := Text.gapInTag_eq_ok_iff.2 (by decide +kernel) }
  obtain ⟨hpair, -, -, hvalue, -⟩ := read_as_written hstands
  exact ⟨hstands, hpair.2 (by decide), hvalue⟩

/-- The tag `A` with a vertical tab behind its name. -/
def tabbed : SpacedTag where
  before := []
  name := [0x41]
  between := [Byte.verticalTab]
  value := [0x62]
  behind := []
  name_ne := by decide
  isName := by decide +kernel
  allowed := by decide +kernel

/-- The vertical tab is a gap where it stands, but the name in front of it is not taken for one. -/
theorem name_runs_into_vertical_tab :
    tabbed.Stands (.ofBytes tabbed.write.toByteArray) 0 ∧
      ((Text.ofBytes tabbed.write.toByteArray).tagPair 0).toOption = none := by
  refine ⟨⟨Text.holdsAt_ofBytes _, ?_, ?_, ?_⟩, by decide +kernel⟩
  · exact Text.gapInTag_eq_ok_iff.2 (by decide +kernel)
  · exact Text.gapInTag_eq_ok_iff.2 (by decide +kernel)
  · exact Text.gapInTag_eq_ok_iff.2 (by decide +kernel)

end SpacedTag

end Scorebook
