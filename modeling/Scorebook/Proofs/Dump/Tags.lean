import Scorebook.Proofs.Dump.Lines
import Scorebook.Proofs.Game.Tags
import Scorebook.Proofs.Header.Growing
import Scorebook.Proofs.Header.Literal
import Scorebook.Proofs.Header.Spaced
import Scorebook.Proofs.Written.Tags

/-!
# Printed tags

For each tag pair of a game a line is printed that looks like the pair, but the value in it is the
one that was read, without its escapes. `Dump.tags_reread` says what scanning these lines again
finds: the tags of the game and no problem if and only if no value needs an escape.
-/

namespace Scorebook

/-! ## Tags as they are read -/

/-- A tag pair as it may come from a header. -/
structure TagPair.IsSound (tag : TagPair) : Prop where
  name_ne : utf8 tag.name ≠ []
  isName : ∀ b ∈ utf8 tag.name, Byte.isName b = true
  allowed : ∀ b ∈ utf8 tag.value, Byte.isForbidden b = false

namespace RawTag

variable (t : Text) (tag : RawTag)

theorem name_decode : (tag.decode t).name = Scorebook.decode (t.word tag.name).toByteArray := by
  simp only [RawTag.decode, Text.read, Text.slice_eq_word]

theorem value_decode :
    (tag.decode t).value = Scorebook.decode (unescape (t.word tag.value)).toByteArray := by
  simp only [RawTag.decode]

end RawTag

namespace Byte

/-- A forbidden byte is ASCII. -/
theorem ascii_of_isForbidden {b : UInt8} : isForbidden b = true → b < 0x80 :=
  forall_of_table (p := fun b => isForbidden b = true → b < 0x80) (by decide +kernel) b

end Byte

namespace Text

variable {t : Text} {start pos stop next quote bracket : Nat} {tag : RawTag} {strict : Bool}

/-- A byte of a span stands in the text. -/
theorem mem_word {s : Span} {b : UInt8} (h : b ∈ t.word s) :
    ∃ i, s.start ≤ i ∧ i < s.stop ∧ t[i]? = some b := by
  obtain ⟨i, hi⟩ := List.mem_iff_getElem?.1 h
  rw [getElem?_word] at hi
  split at hi
  · next hlt => exact ⟨s.start + i, Nat.le_add_right .., hlt, hi⟩
  · cases hi

/-- The parts of a pair that is read are such as may be written again. -/
theorem Pair.isSound_decode (h : t.Pair start tag quote bracket) (hstart : start < t.size) :
    (tag.decode t).IsSound := by
  have hname : ∀ b ∈ t.word tag.name, Byte.isName b = true := by
    intro b hb
    obtain ⟨i, hi, hlt, hbyte⟩ := mem_word hb
    rw [← h.name_stop] at hlt
    have hstop := not_of_lt_seek hi hlt hbyte
    simpa using hstop
  have hwritten : utf8 (tag.decode t).name = t.word tag.name := by
    rw [RawTag.name_decode]
    exact utf8_decode_of_ascii fun b hb => (Byte.plain_of_isName (hname b hb)).1
  refine ⟨?_, ?_, ?_⟩
  · -- A name is not empty, since the quote stands behind it.
    have hlt := h.name_lt hstart
    have hsize := h.bracket_lt_size
    have hquote := h.name_le_quote
    have hstop := h.quote_lt_stop
    have hbracket := h.stop_lt_bracket
    rw [hwritten, ← List.length_pos_iff, length_word]
    omega
  · rw [hwritten]
    exact hname
  · -- The decoding changes no ASCII byte, so a forbidden one would stand in the text.
    rw [RawTag.value_decode]
    intro b hb
    cases hforbidden : Byte.isForbidden b with
    | false => rfl
    | true =>
      have hmem := mem_of_mem_utf8_decode hb (Byte.ascii_of_isForbidden hforbidden)
      exact absurd hforbidden (by simp [(h.soundValue.allowed b (mem_of_mem_unescape hmem)).2])

/-- What was found before is in front of the pairs of the header. -/
theorem exists_headerFrom_tags_eq (t : Text) (strict : Bool) (start pos stop : Nat)
    (tags : Array RawTag) (problems : Array Problem) :
    ∃ later, (t.headerFrom strict start pos stop tags problems).tags = tags.toList ++ later := by
  fun_induction headerFrom t strict start pos stop tags problems with
  | case1 pos stop tags problems hb warned tag next hfound gap ih =>
    obtain ⟨later, hlater⟩ := ih
    exact ⟨tag :: later, by rw [hlater, Array.toList_push, List.append_assoc]; rfl⟩
  | case2 pos stop tags problems hb warned problem hfound next gap ih => exact ih
  | case3 => exact ⟨[], (List.append_nil _).symm⟩

end Text

/-- The tags of a game may be written again. -/
theorem Game.isSound_of_mem_tags {buffer : Buffer} {strict : Bool} {n : Nat} {entry : Entry}
    {tag : TagPair} (h : tag ∈ (Game.read buffer strict n entry).tags) : tag.IsSound := by
  obtain ⟨raw, hraw, rfl⟩ := List.mem_map.1 h
  refine Text.forall_mem_headerFrom_tags (P := fun raw => (raw.decode _).IsSound) ?_
    (List.forall_mem_nil _) raw hraw
  intro pos raw next hpos hpair
  obtain ⟨quote, bracket, hpair, -⟩ := Text.tagPair_eq_ok_iff.1 hpair
  exact hpair.isSound_decode hpos

namespace Dump

/-! ## One printed tag -/

/-- The bytes of the lines that are printed for tags. -/
def tagBytes (tags : List TagPair) : List UInt8 :=
  WrittenGame.lines (tags.map fun tag => utf8 (tagLine tag))

/-- The line of a tag is its name and its value with two blanks in front. -/
theorem utf8_tagLine (tag : TagPair) : utf8 (tagLine tag) =
    Byte.space :: Byte.space :: Byte.openBracket :: (utf8 tag.name ++ Byte.space :: Byte.quote ::
      (utf8 tag.value ++ [Byte.quote, Byte.closeBracket])) := by
  simp only [tagLine, utf8_append, List.append_assoc]
  rfl

/-- The number of bytes of the line of a tag. -/
theorem length_tagLine (tag : TagPair) :
    (utf8 (tagLine tag)).length = (utf8 tag.name).length + (utf8 tag.value).length + 7 := by
  simp only [utf8_tagLine, List.length_cons, List.length_append, List.length_nil]
  omega

/-- The parts of a printed tag, each in its place, from its bracket on. -/
structure Printed (tag : TagPair) (t : Text) (pos : Nat) : Prop where
  sound : tag.IsSound
  front : t.TagFront pos (utf8 tag.name)
  value : t.holdsAt (pos + (utf8 tag.name).length + 3) (utf8 tag.value) = true
  closing : t[pos + (utf8 tag.name).length + 3 + (utf8 tag.value).length]? = some Byte.quote
  bracket : t[pos + (utf8 tag.name).length + 3 + (utf8 tag.value).length + 1]? =
    some Byte.closeBracket
  feed : t[pos + (utf8 tag.name).length + 3 + (utf8 tag.value).length + 2]? = some Byte.newline

/-- Where the parts of a tag lie that is printed with its bracket at `pos`. -/
def place (tag : TagPair) (pos : Nat) : RawTag :=
  ⟨⟨pos + 1, pos + 1 + (utf8 tag.name).length⟩,
    ⟨pos + (utf8 tag.name).length + 3,
      pos + (utf8 tag.name).length + 3 + (utf8 tag.value).length⟩⟩

variable {t : Text} {tag : TagPair} {rest : List TagPair} {pos next : Nat} {found : RawTag}

/-- A printed line and those behind it. -/
theorem holdsAt_tagBytes_cons (h : t.holdsAt pos (tagBytes (tag :: rest)) = true)
    (hsound : tag.IsSound) :
    t[pos]? = some Byte.space ∧ t[pos + 1]? = some Byte.space ∧ Printed tag t (pos + 2) ∧
      t.holdsAt (pos + (utf8 (tagLine tag)).length + 1) (tagBytes rest) = true := by
  -- One printed line: two blanks, the pair and the line feed.
  rw [tagBytes, List.map_cons, WrittenGame.lines_cons, Text.holdsAt_append, Bool.and_eq_true,
    Text.holdsAt, Bool.and_eq_true, beq_iff_eq, utf8_tagLine] at h
  obtain ⟨hline, hfeed, hrest⟩ := h
  simp only [Text.holdsAt_append, Text.holdsAt, Bool.and_eq_true, beq_iff_eq, Bool.and_true]
    at hline
  obtain ⟨hfirst, hsecond, hopening, hname, hspace, hquote, hvalue, hclosing, hbracket⟩ := hline
  rw [← utf8_tagLine, length_tagLine] at hfeed
  have hfront : t.TagFront (pos + 2) (utf8 tag.name) :=
    ⟨hopening, hname, Text.getElem?_of_eq (by omega) hspace,
      Text.getElem?_of_eq (by omega) hquote, hsound.name_ne, hsound.isName⟩
  have hplace : pos + 1 + 1 + 1 + (utf8 tag.name).length + 1 + 1 =
      pos + 2 + (utf8 tag.name).length + 3 := by omega
  rw [hplace] at hvalue hclosing hbracket
  rw [utf8_tagLine]
  exact ⟨hfirst, hsecond, ⟨hsound, hfront, hvalue, hclosing, hbracket,
    Text.getElem?_of_eq (by omega) hfeed⟩, hrest⟩

namespace Printed

variable (h : Printed tag t pos)

include h

/-- A tag whose value needs no escapes is printed as a well-formed pair. -/
theorem pair (hliteral : IsLiteral (utf8 tag.value) = true) :
    t.Pair pos (place tag pos) (pos + (utf8 tag.name).length + 2)
      (pos + (utf8 tag.name).length + 3 + (utf8 tag.value).length + 1) where
  gap_name := Text.gapInTag_of_not_inGap h.front.inGap_name
  name_stop := h.front.seek_name
  name_ne := by
    have hlength := List.length_pos_iff.2 h.front.name_ne
    simp only [place]
    omega
  name_whole := Text.seek_of_match h.front.space_behind_name rfl
  gap_quote := h.front.gapInTag_quote
  opening := h.front.quote
  value_start := rfl
  value_stop := Text.valueStop_of_isLiteral h.value h.sound.allowed h.closing hliteral
  closing := h.closing
  gap_bracket := by
    have hbracket : t.inGap (pos + (utf8 tag.name).length + 3 + (utf8 tag.value).length + 1) =
        false := by
      rw [Text.inGap_of_getElem? h.bracket]
      rfl
    exact Text.gapInTag_of_not_inGap hbracket
  close := h.bracket

/-- It is read as the tag that was printed. -/
theorem decode (hliteral : IsLiteral (utf8 tag.value) = true) :
    (place tag pos).decode t = tag := by
  have hname : t.word (place tag pos).name = utf8 tag.name := Text.word_of_holdsAt h.front.written
  have hvalue : t.word (place tag pos).value = utf8 tag.value := Text.word_of_holdsAt h.value
  rw [RawTag.decode, Text.read, Text.slice_eq_word, hname, hvalue, unescape_of_isLiteral hliteral,
    toByteArray_utf8, toByteArray_utf8, decode_toByteArray, decode_toByteArray]

/-- Conversely, a value that is read as it was printed needs no escapes. -/
theorem isLiteral (hpair : t.tagPair pos = .ok (found, next)) (hdecode : found.decode t = tag) :
    IsLiteral (utf8 tag.value) = true := by
  obtain ⟨quote, bracket, hpair, -⟩ := Text.tagPair_eq_ok_iff.1 hpair
  have hquote : quote = pos + (utf8 tag.name).length + 2 :=
    congrArg Prod.snd (Except.ok.inj (hpair.tagName.symm.trans h.front.tagName))
  have hstart : found.value.start = pos + (utf8 tag.name).length + 3 := by
    rw [hpair.value_start, hquote]
  have hstop : t.valueStop (pos + (utf8 tag.name).length + 3) = found.value.stop := by
    rw [← hpair.value_stop, hquote]
  -- The value ends in its line, at a quote.
  have hle : found.value.stop ≤
      pos + (utf8 tag.name).length + 3 + (utf8 tag.value).length + 2 := by
    rw [← hstop]
    exact Text.valueStop_le_of_isForbidden h.feed rfl (by omega)
  have hbefore {i : Nat} {b : UInt8} (hb : t[i]? = some b) (hne : b ≠ Byte.quote) :
      found.value.stop ≠ i := by
    rintro rfl
    exact hne (Option.some.inj (hb.symm.trans hpair.closing))
  have hfeed := hbefore h.feed (by decide)
  have hbracket := hbefore h.bracket (by decide)
  refine Text.isLiteral_of_read h.value h.closing hstop hpair.closing (by omega) ?_
  rw [← hstart, ← RawTag.value_decode, hdecode]

/-- It has a tab to be reported exactly if there is one in its value. -/
theorem tabsInTag_eq_nil_iff (hliteral : IsLiteral (utf8 tag.value) = true) :
    t.tabsInTag pos = [] ↔ Byte.tab ∉ utf8 tag.value := by
  have hstop := (h.pair hliteral).value_stop
  simp only [Text.tabsInTag, h.front.tagName, h.front.quote, if_true, hstop]
  -- A tab in the value is noted, in the range of the value; without one nothing is.
  constructor
  · intro hnone htab
    obtain ⟨i, hi⟩ := List.mem_iff_getElem?.1 htab
    obtain ⟨hlt, -⟩ := List.getElem?_eq_some_iff.1 hi
    have hbefore : pos + (utf8 tag.name).length + 3 + i < (place tag pos).value.stop :=
      Nat.add_lt_add_left hlt _
    have hreported : (#[] : Array Problem).size < _ :=
      Text.size_lt_tabsBetween (Nat.le_add_right _ i) hbefore (Text.holdsAt_iff.1 h.value i _ hi)
    rw [← Array.length_toList, ← Array.length_toList, hnone] at hreported
    exact absurd hreported (Nat.lt_irrefl _)
  · intro hnone
    rw [Text.tabsBetween_of_no_tab]
    intro i hi hlt htab
    exact hnone (Text.mem_of_holdsAt h.value hi hlt htab)

end Printed

/-! ## All printed tags -/

/-- In front of a printed tag there are only blanks. -/
theorem gap_of_tagBytes {tags : List TagPair} (h : t.holdsAt pos (tagBytes tags) = true)
    (hend : pos + (tagBytes tags).length = t.size) (hsound : ∀ tag ∈ tags, tag.IsSound) :
    t.gap pos = ⟨t.seek (· == Byte.openBracket) pos, #[], none⟩ := by
  cases tags with
  | nil =>
    have hsize : t.size ≤ pos := Nat.le_of_eq hend.symm
    rw [Text.gap_of_not_inGap (Text.inGap_of_size_le hsize), Text.seek_of_size_le hsize, ← hend]
    rfl
  | cons tag rest =>
    obtain ⟨hfirst, hsecond, hprinted, -⟩ := holdsAt_tagBytes_cons h (hsound tag List.mem_cons_self)
    have hgap : t.gap pos = t.gap (pos + 2) := (Text.gapFrom_of_isBlank hfirst rfl #[]).trans
      (Text.gapFrom_of_isBlank hsecond rfl #[])
    rw [hgap, Text.gap_of_openBracket hprinted.front.opening, Text.seek_of_not_match hfirst rfl,
      Text.seek_of_not_match hsecond rfl, Text.seek_of_match hprinted.front.opening rfl]

/-- A header that is scanned without a problem had none before. -/
theorem toList_eq_nil_of_headerFrom {strict : Bool} {start stop : Nat} {tags : Array RawTag}
    {problems : Array Problem}
    (h : (t.headerFrom strict start pos stop tags problems).problems = []) :
    problems.toList = [] := by
  rw [List.eq_nil_iff_forall_not_mem]
  intro p hp
  have hmem : p ∈ (t.headerFrom strict start pos stop tags problems).problems :=
    Text.mem_headerFrom_problems hp
  rw [h] at hmem
  cases hmem

/-- The pair that is read next is the next one of the header. -/
theorem decode_eq_of_headerFrom {strict : Bool} {start stop : Nat} {acc : Array RawTag}
    {problems : Array Problem}
    (h : (t.headerFrom strict start pos stop (acc.push found) problems).tags.map (·.decode t) =
      acc.toList.map (·.decode t) ++ tag :: rest) : found.decode t = tag := by
  obtain ⟨later, hlater⟩ :=
    t.exists_headerFrom_tags_eq strict start pos stop (acc.push found) problems
  rw [hlater, Array.toList_push, List.append_assoc, List.map_append] at h
  exact (List.cons_eq_cons.1 (List.append_cancel_left h)).1

/-- The printed lines are scanned as the tags they were printed for, and without a problem, if and
only if no value needs an escape; and strict scanning wants no tab in a value. -/
theorem headerFrom_tagBytes {strict : Bool} {start : Nat} {tags : List TagPair}
    (h : t.holdsAt pos (tagBytes tags) = true) (hend : pos + (tagBytes tags).length = t.size)
    (hsound : ∀ tag ∈ tags, tag.IsSound) (stop : Nat) (acc : Array RawTag) :
    let header := t.headerFrom strict start (t.seek (· == Byte.openBracket) pos) stop acc #[]
    (header.problems = [] ∧
        header.tags.map (·.decode t) = acc.toList.map (·.decode t) ++ tags) ↔
      ∀ tag ∈ tags, IsLiteral (utf8 tag.value) = true ∧
        (strict = true → Byte.tab ∉ utf8 tag.value) := by
  -- By induction on the tags, each of which is a line of its own.
  induction tags generalizing pos stop acc with
  | nil =>
    have hsize : t.size ≤ pos := Nat.le_of_eq hend.symm
    have hne : t[t.size]? ≠ some Byte.openBracket := by
      rw [Text.getElem?_eq_none_iff.2 (Nat.le_refl _)]
      nofun
    rw [Text.seek_of_size_le hsize, Text.headerFrom_of_ne hne]
    simp
  | cons tag rest ih =>
    obtain ⟨hfirst, hsecond, hprinted, hrest⟩ :=
      holdsAt_tagBytes_cons h (hsound tag List.mem_cons_self)
    -- The two blanks of the line are passed over by the search for a bracket.
    have hseek : t.seek (· == Byte.openBracket) pos = pos + 2 := by
      rw [Text.seek_of_not_match hfirst rfl, Text.seek_of_not_match hsecond rfl,
        Text.seek_of_match hprinted.front.opening rfl]
    have hsound' : ∀ tag ∈ rest, tag.IsSound := fun tag htag =>
      hsound tag (List.mem_cons_of_mem _ htag)
    have hend' : pos + (utf8 (tagLine tag)).length + 1 + (tagBytes rest).length = t.size := by
      rw [← hend, tagBytes, tagBytes, List.map_cons, WrittenGame.lines_cons, List.length_append,
        List.length_cons]
      omega
    rw [hseek]
    rw [List.forall_mem_cons]
    -- Either the value is read back as it was printed, or some other value, or none.
    by_cases hliteral : IsLiteral (utf8 tag.value) = true
    case pos =>
      have hpair := Text.tagPair_eq_ok_iff.2 ⟨_, _, hprinted.pair hliteral, rfl⟩
      have hgap : t.gap (pos + 2 + (utf8 tag.name).length + 3 + (utf8 tag.value).length + 1 + 1) =
          ⟨t.seek (· == Byte.openBracket) (pos + (utf8 (tagLine tag)).length + 1), #[], none⟩ := by
        rw [← gap_of_tagBytes hrest hend' hsound', length_tagLine]
        refine (Text.gapFrom_of_isBlank hprinted.feed rfl #[]).trans ?_
        exact congrArg (t.gapFrom · #[]) (by omega)
      rw [Text.headerFrom_of_tagPair hprinted.front.opening hpair, hgap]
      by_cases hclean : strict = true → Byte.tab ∉ utf8 tag.value
      case pos =>
        have hwarned : (if strict then (#[] : Array Problem) ++ t.tabsInTag (pos + 2) else #[]) =
            #[] := by
          cases strict with
          | false => rfl
          | true => rw [if_pos rfl, (hprinted.tabsInTag_eq_nil_iff hliteral).2 (hclean rfl)]; rfl
        have hstep := ih hrest hend' hsound'
          (pos + 2 + (utf8 tag.name).length + 3 + (utf8 tag.value).length + 1 + 1)
          (acc.push (place tag (pos + 2)))
        rw [Array.toList_push, List.map_append, List.map_singleton, hprinted.decode hliteral,
          List.append_assoc] at hstep
        rw [hwarned]
        exact hstep.trans ⟨fun hall => ⟨⟨hliteral, hclean⟩, hall⟩, fun hall => hall.2⟩
      -- A tab in a value is noted in strict mode, so the header has a problem.
      case neg =>
        refine iff_of_false ?_ fun hall => hclean hall.1.2
        rintro ⟨hproblems, -⟩
        obtain ⟨hstrict, htab⟩ := Classical.not_imp.1 hclean
        have hwarned := toList_eq_nil_of_headerFrom hproblems
        rw [if_pos hstrict, Array.toList_appendList, Array.toList_appendList, Option.toList_none,
          List.append_nil] at hwarned
        exact htab ((hprinted.tabsInTag_eq_nil_iff hliteral).1 hwarned)
    -- The pair is malformed, which is noted, or it has another value than was printed.
    case neg =>
      refine iff_of_false ?_ fun hall => hliteral hall.1.1
      rintro ⟨hproblems, htags⟩
      cases hpair : t.tagPair (pos + 2) with
      | error problem =>
        rw [Text.headerFrom_of_problem hprinted.front.opening hpair] at hproblems
        have hnone := toList_eq_nil_of_headerFrom hproblems
        rw [Array.toList_appendList, List.append_eq_nil_iff] at hnone
        exact List.cons_ne_nil _ _ hnone.2
      | ok found =>
        obtain ⟨found, next⟩ := found
        rw [Text.headerFrom_of_tagPair hprinted.front.opening hpair] at htags
        exact hliteral (hprinted.isLiteral hpair (decode_eq_of_headerFrom htags))

/-- The lines printed for the tags of a game look like a header, and scanning them from the first
bracket on finds no problem and just the tags of the game, in order, if and only if every value can
do without its escapes: it has no quote, no two backslashes in a row and no backslash at its end.
Strict scanning reports the tabs in values as well. -/
theorem tags_reread (buffer : Buffer) (strict : Bool) (n : Nat) (entry : Entry) (again : Bool) :
    let g := Game.read buffer strict n entry
    let t := Text.ofBytes (tagBytes g.tags).toByteArray
    let header := t.header again (t.seek (· == Byte.openBracket) 0)
    (∀ (request : Request) (db : Database), request.tags = true →
      ∃ title rest, (gameLines request db g).1 = title :: (g.tags.map tagLine ++ rest)) ∧
      ((header.problems = [] ∧ header.tags.map (·.decode t) = g.tags) ↔
        ∀ tag ∈ g.tags, IsLiteral (utf8 tag.value) = true ∧
          (again = true → Byte.tab ∉ utf8 tag.value)) := by
  intro g t header
  refine ⟨?_, ?_⟩
  · intro request db htags
    simp only [gameLines, htags, if_true, List.cons_append, List.append_assoc]
    exact ⟨_, _, rfl⟩
  · have hsize : 0 + (tagBytes g.tags).length = t.size := by
      rw [Nat.zero_add, Text.size_ofBytes, List.size_toByteArray]
    exact headerFrom_tagBytes (Text.holdsAt_ofBytes _) hsize
      (fun tag htag => Game.isSound_of_mem_tags htag) _ #[]

/-- A game with the tag `[A "a\"b"]`. -/
def quoteSample : Buffer :=
  ⟨0, .ofBytes ⟨#[0x5b, 0x41, 0x20, 0x22, 0x61, 0x5c, 0x22, 0x62, 0x22, 0x5d, 0x0a, 0x65, 0x34,
    0x20, 0x2a]⟩⟩

/-- The quote in the value ends the value of the line that is printed for it. -/
theorem tag_misread_of_quote :
    ∃ entry ∈ quoteSample.text.games false,
      let g := Game.read quoteSample false 1 entry
      let t := Text.ofBytes (tagBytes g.tags).toByteArray
      g.tags = [⟨"A", "a\"b"⟩] ∧ (t.header false 2).tags = [] ∧
        (t.header false 2).problems = [.fault .unclosedTag ⟨2, 8⟩] := by
  decide +kernel

end Dump

end Scorebook
