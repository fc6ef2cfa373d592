import Scorebook.Proofs.Decoding
import Scorebook.Proofs.Header.Cutting
import Scorebook.Proofs.Header.Escapes

/-!
# Written tags are read back

A written tag is a well-formed pair at exactly the places it was written to, it opens a header as
far as the lookahead can see, and decoding it gives back what was written. The tag lines of a game
make up one header without problems.
-/

namespace Scorebook

namespace Byte

/-- A byte that may be written in a value may stand there when it is read, and is no tab. -/
theorem not_isForbidden {b : UInt8} (h : space ≤ b ∧ b ≠ delete) :
    isForbidden b = false ∧ b ≠ tab := by
  revert h
  exact forall_of_table (p := fun b => space ≤ b ∧ b ≠ delete → isForbidden b = false ∧ b ≠ tab)
    (by decide +kernel) b

end Byte

namespace WrittenTag

/-- Where the parts of the tag lie if it is written from `pos` on. -/
def raw (tag : WrittenTag) (pos : Nat) : RawTag :=
  ⟨⟨pos + 1, pos + 1 + tag.name.length⟩,
    ⟨pos + tag.name.length + 3, pos + tag.name.length + 3 + (escape tag.value).length⟩⟩

/-- The number of bytes of a tag that is written. -/
theorem length_write (tag : WrittenTag) :
    tag.write.length = tag.name.length + (escape tag.value).length + 5 := by
  simp only [write, List.length_append, List.length_cons, List.length_nil]
  omega

/-- The parts of a tag, each in its place. -/
structure Stands (tag : WrittenTag) (t : Text) (pos : Nat) : Prop where
  opening : t[pos]? = some Byte.openBracket
  name : t.holdsAt (pos + 1) tag.name = true
  space : t[pos + tag.name.length + 1]? = some Byte.space
  quote : t[pos + tag.name.length + 2]? = some Byte.quote
  value : t.holdsAt (pos + tag.name.length + 3) (escape tag.value) = true
  closing : t[pos + tag.name.length + (escape tag.value).length + 3]? = some Byte.quote
  bracket : t[pos + tag.name.length + (escape tag.value).length + 4]? = some Byte.closeBracket

/-- A tag that is written in a place stands there, part for part. -/
theorem stands_of_holdsAt {tag : WrittenTag} {t : Text} {pos : Nat}
    (h : t.holdsAt pos tag.write = true) : tag.Stands t pos := by
  simp only [write, Text.holdsAt_append, Text.holdsAt, Bool.and_eq_true, beq_iff_eq,
    List.length_append, List.length_cons, Bool.and_true] at h
  obtain ⟨⟨⟨hopening, hname⟩, hspace, hquote, hvalue⟩, hclosing, hbracket⟩ := h
  exact ⟨hopening, hname, hspace, hquote, hvalue, Text.getElem?_of_eq (by omega) hclosing,
    Text.getElem?_of_eq (by omega) hbracket⟩

namespace Stands

variable {tag : WrittenTag} {t : Text} {pos : Nat} (h : tag.Stands t pos)

include h

/-- The tag has its name where the scanner looks for it. -/
theorem front : t.TagFront pos tag.name :=
  ⟨h.opening, h.name, h.space, h.quote, tag.name_ne, tag.isName⟩

end Stands

end WrittenTag

/-! ## One tag -/

namespace WrittenTag.Stands

variable {tag : WrittenTag} {t : Text} {pos : Nat} (h : tag.Stands t pos)

include h

/-- The value ends where its closing quote was written. -/
theorem valueStop :
    t.valueStop (pos + tag.name.length + 3) =
      pos + tag.name.length + 3 + (escape tag.value).length :=
  Text.valueStop_escape h.value (fun b hb => (Byte.not_isForbidden (tag.printable b hb)).1)
    (Text.getElem?_of_eq (by omega) h.closing)

/-- A written tag is a well-formed pair. -/
theorem pair : t.Pair pos (tag.raw pos) (pos + tag.name.length + 2)
    (pos + tag.name.length + (escape tag.value).length + 4) where
  gap_name := Text.gapInTag_of_not_inGap h.front.inGap_name
  name_stop := h.front.seek_name
  name_ne := by
    have hlength := List.length_pos_iff.2 tag.name_ne
    simp only [raw]
    omega
  name_whole := Text.seek_of_match h.front.space_behind_name rfl
  gap_quote := h.front.gapInTag_quote
  opening := h.quote
  value_start := rfl
  value_stop := h.valueStop
  closing := by
    refine Text.getElem?_of_eq ?_ h.closing
    simp only [raw]
    omega
  gap_bracket := by
    have hbracket : t.inGap (pos + tag.name.length + (escape tag.value).length + 4) = false := by
      rw [Text.inGap_of_getElem? h.bracket]
      rfl
    have hplace : (tag.raw pos).value.stop + 1 =
        pos + tag.name.length + (escape tag.value).length + 4 := by
      simp only [raw]
      omega
    rw [hplace]
    exact Text.gapInTag_of_not_inGap hbracket
  close := h.bracket

/-- The tag is read back with its parts in their places. -/
theorem tagPair : t.tagPair pos = .ok (tag.raw pos, pos + tag.write.length) :=
  Text.tagPair_eq_ok_iff.2 ⟨_, _, h.pair, by rw [length_write]; omega⟩

/-- A written tag has no tab to be reported. -/
theorem tabsInTag : t.tabsInTag pos = [] := by
  unfold Text.tabsInTag
  rw [h.pair.tagName]
  simp only
  rw [if_pos h.quote, show pos + tag.name.length + 2 + 1 = pos + tag.name.length + 3 from rfl,
    h.valueStop, Text.tabsBetween_of_no_tab]
  intro i hi hlt htab
  rcases mem_of_mem_escape (Text.mem_of_holdsAt h.value hi hlt htab) with hvalue | hslash
  · exact (Byte.not_isForbidden (tag.printable _ hvalue)).2 rfl
  · cases hslash

/-- A written tag opens a header: its quote is in view. -/
theorem opensTag : t.opensTag pos = true := by
  have hlength := tag.name_length
  have hpositive := List.length_pos_iff.2 tag.name_ne
  -- The pair is short enough for the lookahead, which sees what the text has there.
  have hsee (i : Nat) (hi : i < pos + Text.lookahead) :
      (t.upTo (pos + Text.lookahead))[i]? = t[i]? := by rw [Text.getElem?_upTo, if_pos hi]
  have hlookahead : Text.lookahead = 256 := rfl
  obtain ⟨b, hb, hname⟩ := h.front.name_getElem?
  obtain ⟨-, hblank, -⟩ := Byte.plain_of_isName hname
  have hfirst : (t.upTo (pos + Text.lookahead)).seek (!Text.isInlineBlank ·) (pos + 1) = pos + 1 :=
    Text.seek_of_match (b := b) (by rw [hsee _ (by omega), hb])
      (by simp [Byte.isInlineBlank_of_isBlank hblank])
  have hstop : (t.upTo (pos + Text.lookahead)).seek (!Byte.isName ·) (pos + 1) =
      pos + 1 + tag.name.length := by
    rw [Text.seek_upTo (by rw [h.front.seek_name]; omega), h.front.seek_name]
  have hquote : (t.upTo (pos + Text.lookahead)).seek (!Text.isInlineBlank ·)
      (pos + 1 + tag.name.length) = pos + tag.name.length + 2 := by
    refine Text.seek_eq (b := Byte.quote) (by omega) (by rw [hsee _ (by omega), h.quote]) rfl
      fun i c hi hlt hc => ?_
    obtain rfl : i = pos + tag.name.length + 1 := by omega
    rw [hsee _ (by omega), h.space] at hc
    cases hc
    rfl
  rw [Text.opensTag, if_pos h.opening]
  simp only [hfirst, hstop, hquote, hsee (pos + tag.name.length + 2) (by omega), h.quote]
  simp
  omega

/-- A written tag decodes to the pair that was written. -/
theorem decode : (tag.raw pos).decode t = tag.pair := by
  have hname : t.word (tag.raw pos).name = tag.name := Text.word_of_holdsAt h.name
  have hvalue : t.word (tag.raw pos).value = escape tag.value := Text.word_of_holdsAt h.value
  have hascii : ∀ b ∈ tag.name, b < 0x80 := fun b hb => (Byte.plain_of_isName (tag.isName b hb)).1
  rw [RawTag.decode, Text.read, Text.slice_eq_word, hname, hvalue, decode_of_ascii hascii,
    unescape_escape, WrittenTag.pair]

end WrittenTag.Stands

/-! ## The tags of one game -/

namespace WrittenGame

theorem lines_cons (line : List UInt8) (ls : List (List UInt8)) :
    lines (line :: ls) = line ++ Byte.newline :: lines ls := by
  rw [lines, List.flatMap_cons, List.append_assoc]
  rfl

/-- Where the parts of tags lie that are written in lines from `pos` on. -/
def rawTags (pos : Nat) : List WrittenTag → List RawTag
  | [] => []
  | tag :: rest => tag.raw pos :: rawTags (pos + tag.write.length + 1) rest

variable {t : Text} {strict : Bool} {start pos stop : Nat}

/-- A line that holds a tag, and the lines behind it. -/
theorem holdsAt_lines_cons {tag : WrittenTag} {rest : List WrittenTag}
    (h : t.holdsAt pos (lines ((tag :: rest).map WrittenTag.write)) = true) :
    tag.Stands t pos ∧ t[pos + tag.write.length]? = some Byte.newline ∧
      t.holdsAt (pos + tag.write.length + 1) (lines (rest.map WrittenTag.write)) = true := by
  rw [List.map_cons, lines_cons, Text.holdsAt_append, Bool.and_eq_true, Text.holdsAt,
    Bool.and_eq_true, beq_iff_eq] at h
  exact ⟨WrittenTag.stands_of_holdsAt h.1, h.2.1, h.2.2⟩

/-- Tag lines, followed by an empty line at `q` and a token, are a header without problems. -/
theorem headerFrom_lines {tags : List WrittenTag} {q : Nat} (hne : tags ≠ [])
    (h : t.holdsAt pos (lines (tags.map WrittenTag.write)) = true)
    (hq : pos + (lines (tags.map WrittenTag.write)).length = q)
    (hempty : t[q]? = some Byte.newline) (hgap : t.inGap (q + 1) = false)
    (htoken : t[q + 1]? ≠ some Byte.openBracket) (acc : Array RawTag) (problems : Array Problem) :
    t.headerFrom strict start pos stop acc problems =
      ⟨⟨start, q - 1⟩, q + 1, q + 1, acc.toList ++ rawTags pos tags, problems.toList⟩ := by
  -- By induction on the tags: each but the last is followed by a line feed and another.
  induction tags generalizing pos stop acc problems with
  | nil => exact absurd rfl hne
  | cons tag rest ih =>
    obtain ⟨hstands, hfeed, hrest⟩ := holdsAt_lines_cons h
    rw [List.map_cons, lines_cons, List.length_append, List.length_cons] at hq
    rw [Text.headerFrom_of_tagPair hstands.opening hstands.tagPair, hstands.tabsInTag]
    cases rest with
    | nil =>
      -- The last tag: two line feeds lead to the token.
      obtain rfl : pos + tag.write.length + 1 = q := hq
      have hnext : t.gap (pos + tag.write.length) =
          ⟨pos + tag.write.length + 1 + 1, #[], none⟩ := by
        rw [← Text.gap_of_not_inGap hgap]
        exact (Text.gapFrom_of_isBlank hfeed rfl #[]).trans (Text.gapFrom_of_isBlank hempty rfl #[])
      have hmovetext : (t.upTo (pos + tag.write.length + 1 + 1)).seek (!Byte.isBlank ·)
          (pos + tag.write.length) = pos + tag.write.length + 1 + 1 := by
        apply Text.seek_upTo_of_blanks (by omega) (Text.lt_size_of_getElem? hempty)
        intro i hi hlt
        rcases Nat.eq_or_lt_of_le hi with rfl | hi
        · rw [hfeed]
          rfl
        · obtain rfl : i = pos + tag.write.length + 1 := by omega
          rw [hempty]
          rfl
      rw [hnext, Text.headerFrom_of_ne htoken, hmovetext]
      simp [rawTags]
    | cons tag' rest =>
      obtain ⟨hstands', -, -⟩ := holdsAt_lines_cons hrest
      have hnext : t.gap (pos + tag.write.length) = ⟨pos + tag.write.length + 1, #[], none⟩ := by
        rw [← Text.gap_of_openBracket hstands'.opening]
        exact Text.gapFrom_of_isBlank hfeed rfl #[]
      rw [hnext, ih (by simp) hrest (by omega)]
      simp [rawTags]

/-- The tags of a game decode to the pairs that were written. -/
theorem decode_rawTags {tags : List WrittenTag}
    (h : t.holdsAt pos (lines (tags.map WrittenTag.write)) = true) :
    (rawTags pos tags).map (·.decode t) = tags.map WrittenTag.pair := by
  induction tags generalizing pos with
  | nil => rfl
  | cons tag rest ih =>
    obtain ⟨hstands, -, hrest⟩ := holdsAt_lines_cons h
    rw [rawTags, List.map_cons, List.map_cons, hstands.decode, ih hrest]

end WrittenGame

end Scorebook
