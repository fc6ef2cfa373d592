import Mathlib.Data.List.Forall2
import Scorebook.Problem.Excerpt
import Scorebook.Proofs.Decoding
import Scorebook.Proofs.Text.Saturation

/-!
# What excerpts mark

The range that an excerpt marks is found by a chain of small reckonings. The range of the problem is
cut to the text, the start of its first line is found again from a column, and where the lines are
no UTF-8 the mark moves by what the bytes in front of it gain when they are written as characters.
All of them work out: the lines are those around the range, and the bytes that the excerpt marks in
its source are the bytes of the range as they are shown (`Problem.marked_as_found`).
-/

namespace Scorebook

namespace Text

variable {t : Text} {pos : Nat} {range lines : Span}

/-! ## The lines around a range -/

/-- The part of a range that lies in the text. A range that is reversed or lies behind the text has
an empty part. -/
def within (t : Text) (span : Span) : Span :=
  let start := min span.start t.size
  ⟨start, max start (min span.stop t.size)⟩

/-- These are the lines that hold the range, from just behind the last line feed before it to the
first line feed at or after its stop. -/
structure WholeLines (t : Text) (range lines : Span) : Prop where
  start_le : lines.start ≤ range.start
  starts : lines.start = 0 ∨ t[lines.start - 1]? = some Byte.newline
  no_feed_before : Byte.newline ∉ t.word ⟨lines.start, range.start⟩
  le_stop : range.stop ≤ lines.stop
  stops : lines.stop = t.size ∨ t[lines.stop]? = some Byte.newline
  no_feed_behind : Byte.newline ∉ t.word ⟨range.stop, lines.stop⟩

/-- A line starts at the beginning or behind a line feed. -/
theorem lineStart_eq_zero_or (t : Text) (pos : Nat) :
    t.lineStart pos = 0 ∨ t[t.lineStart pos - 1]? = some Byte.newline := by
  induction pos with
  | zero => exact .inl rfl
  | succ pos ih =>
    rw [lineStart]
    split
    · next hfeed =>
      obtain ⟨b, hb, hnewline⟩ := (Option.any_eq_true ..).1 hfeed
      exact .inr (hb.trans (congrArg some (beq_iff_eq.1 hnewline)))
    · exact ih

/-- There is no line feed between the start of a line and an offset in it. -/
theorem newline_notMem_word_lineStart (h : pos ≤ t.size) :
    Byte.newline ∉ t.word ⟨t.lineStart pos, pos⟩ := by
  induction pos with
  | zero => rw [word_of_le (Nat.zero_le _)]; exact List.not_mem_nil
  | succ pos ih =>
    obtain ⟨b, hb⟩ := exists_getElem? h
    rw [lineStart, hb, Option.any_some]
    split
    · rw [word_of_le (Nat.le_refl _)]
      exact List.not_mem_nil
    · next hother =>
      rw [word_succ hb (t.lineStart_le pos), List.mem_append, List.mem_singleton]
      rintro (hmem | rfl)
      · exact ih (Nat.le_of_succ_le h) hmem
      · exact hother rfl

/-- There is no line feed between an offset and the end of its line. -/
theorem newline_notMem_word_lineEnd (t : Text) (pos : Nat) :
    Byte.newline ∉ t.word ⟨pos, t.lineEnd pos⟩ := by
  intro hmem
  obtain ⟨i, hi⟩ := List.mem_iff_getElem?.1 hmem
  rw [getElem?_word] at hi
  split at hi
  · next hlt => exact absurd (not_of_lt_seek (Nat.le_add_right pos i) hlt hi) (by decide)
  · cases hi

/-- A span that is cut to the text does not go back. -/
theorem start_within_le (t : Text) (span : Span) : (t.within span).start ≤ (t.within span).stop :=
  Nat.le_max_left ..

/-- A span that is cut to the text ends in it. -/
theorem stop_within_le (t : Text) (span : Span) : (t.within span).stop ≤ t.size :=
  Nat.max_le.2 ⟨Nat.min_le_right .., Nat.min_le_right ..⟩

/-- The lines that hold a range. -/
def linesAround (t : Text) (range : Span) : Span :=
  ⟨t.lineStart range.start, t.lineEnd range.stop⟩

/-- The lines around a span that is cut to the text are whole. -/
theorem wholeLines_within (t : Text) (span : Span) :
    t.WholeLines (t.within span) (t.linesAround (t.within span)) where
  start_le := t.lineStart_le _
  starts := t.lineStart_eq_zero_or _
  no_feed_before :=
    newline_notMem_word_lineStart (Nat.le_trans (t.start_within_le span) (t.stop_within_le span))
  le_stop := le_lineEnd (t.stop_within_le span)
  stops := (Nat.eq_or_lt_of_le (t.lineEnd_le_size _)).imp_right getElem?_lineEnd
  no_feed_behind := t.newline_notMem_word_lineEnd _

/-- Whole lines end in the text. -/
theorem WholeLines.stop_le_size (h : t.WholeLines range lines) : lines.stop ≤ t.size := by
  rcases h.stops with hsize | hfeed
  · exact Nat.le_of_eq hsize
  · exact Nat.le_of_lt (lt_size_of_getElem? hfeed)

theorem WholeLines.stop_le (h : t.WholeLines range lines) : range.stop ≤ t.size :=
  Nat.le_trans h.le_stop h.stop_le_size

/-- Whole lines can be sliced out. -/
theorem WholeLines.slice?_lines (h : t.WholeLines range lines) (hrange : range.start ≤ range.stop) :
    t.slice? lines = some (t.slice lines) :=
  slice?_eq (Nat.le_trans (Nat.le_trans h.start_le hrange) h.le_stop) h.stop_le_size

/-- The first line is the one of the start of the range. -/
theorem WholeLines.lineOf_start (h : t.WholeLines range lines) :
    t.lineOf lines.start = t.lineOf range.start := by
  have hadd := feeds_add (t := t) (Nat.zero_le lines.start) h.start_le
  have hnone : t.feeds lines.start range.start = 0 := List.count_eq_zero.2 h.no_feed_before
  rw [hnone, Nat.add_zero] at hadd
  exact congrArg (· + 1) hadd

end Text

/-! ## Bytes as they are shown -/

/-- The bytes by which a part of `whole` is shown: the part itself if the whole is UTF-8, and
otherwise the UTF-8 of the characters that its bytes are in ISO-8859-1. -/
def shownBytes (whole : ByteArray) (part : List UInt8) : List UInt8 :=
  if whole.IsValidUTF8 then part else utf8 (String.ofList (latin1 part))

/-- Whether bytes are shown as they are is told by the whole, so parts are shown one by one. -/
theorem shownBytes_append (whole : ByteArray) (xs ys : List UInt8) :
    shownBytes whole (xs ++ ys) = shownBytes whole xs ++ shownBytes whole ys := by
  unfold shownBytes
  split
  · rfl
  · rw [latin1_append, String.ofList_append, utf8_append]

/-- The source of an excerpt is its bytes as they are shown. -/
theorem utf8_decode_eq_shownBytes (whole : ByteArray) :
    utf8 (decode whole) = shownBytes whole whole.data.toList := by
  unfold shownBytes
  split
  · next hvalid => rw [utf8, toByteArray_decode hvalid]
  · next hinvalid => rw [decode, String.fromUTF8?, dif_neg hinvalid, Option.getD_none]

theorem length_utf8 (s : String) : (utf8 s).length = s.utf8ByteSize :=
  rfl

/-- Where bytes are shown as characters of their own, the width of a part is what they take up. -/
theorem length_shownBytes {whole : ByteArray} (h : ¬ whole.IsValidUTF8) (part : ByteArray) :
    (shownBytes whole part.data.toList).length = Problem.latin1Width part := by
  have hsize : (fun c => (String.utf8EncodeChar c).length) = Char.utf8Size :=
    funext String.length_utf8EncodeChar
  rw [shownBytes, if_neg h, utf8_eq_flatMap, String.toList_ofList, List.length_flatMap, hsize,
    Problem.latin1Width, List.sum_eq_foldl, List.foldl_map]

/-! ## One excerpt -/

/-- The excerpt shows these lines of the text, and marks in its source the range as it is shown. -/
structure Excerpt.Marks (e : Excerpt) (t : Text) (range lines : Span) : Prop where
  source : e.source = t.read lines
  start_le_stop : e.start ≤ e.stop
  stop_le_size : e.stop ≤ e.source.utf8ByteSize
  before : (utf8 e.source).take e.start =
    shownBytes (t.slice lines) (t.word ⟨lines.start, range.start⟩)
  inside : ((utf8 e.source).take e.stop).drop e.start = shownBytes (t.slice lines) (t.word range)

/-- A mark is as long as what it marks is when it is shown, and so is what stands before it. -/
theorem Excerpt.marks_of_lengths {t : Text} {range lines : Span} (h : t.WholeLines range lines)
    (hrange : range.start ≤ range.stop) (origin : String) (line : Nat) (label : String)
    (level : Level) :
    Excerpt.Marks
      ⟨origin, line, t.read lines,
        (shownBytes (t.slice lines) (t.word ⟨lines.start, range.start⟩)).length,
        (shownBytes (t.slice lines) (t.word ⟨lines.start, range.start⟩)).length +
          (shownBytes (t.slice lines) (t.word range)).length, label, level⟩
      t range lines := by
  have hword : t.word lines = t.word ⟨lines.start, range.start⟩ ++ t.word range ++
      t.word ⟨range.stop, lines.stop⟩ := by
    rw [Text.word_append h.start_le hrange (Nat.le_trans hrange h.stop_le),
      Text.word_append (Nat.le_trans h.start_le hrange) h.le_stop h.stop_le]
  have hshown : utf8 (t.read lines) =
      shownBytes (t.slice lines) (t.word ⟨lines.start, range.start⟩) ++
        shownBytes (t.slice lines) (t.word range) ++
          shownBytes (t.slice lines) (t.word ⟨range.stop, lines.stop⟩) := by
    rw [Text.read, utf8_decode_eq_shownBytes, ← shownBytes_append, ← shownBytes_append, ← hword]
    rfl
  have hlength := congrArg List.length hshown
  simp only [List.length_append, length_utf8] at hlength
  constructor <;> dsimp only
  · omega
  · omega
  · rw [hshown, List.append_assoc, List.take_left]
  · rw [hshown, ← List.length_append, List.take_left, List.drop_left]

namespace Problem

open LineTable

variable {buffer : Buffer} {t : Text} {range lines : Span}

/-- The mark for a range in its lines. -/
def markIn (t : Text) (range lines : Span) : Nat × Nat :=
  match String.fromUTF8? (t.slice lines) with
  | some _ => (range.start - lines.start, range.stop - lines.start)
  | none =>
    let before := latin1Width (t.slice ⟨lines.start, range.start⟩)
    (before, before + latin1Width (t.slice range))

/-- A mark starts behind what is shown in front of the span, and is as wide as what is shown of it.
-/
theorem markIn_eq (h : t.WholeLines range lines) (hrange : range.start ≤ range.stop) :
    markIn t range lines =
      ((shownBytes (t.slice lines) (t.word ⟨lines.start, range.start⟩)).length,
        (shownBytes (t.slice lines) (t.word ⟨lines.start, range.start⟩)).length +
          (shownBytes (t.slice lines) (t.word range)).length) := by
  -- UTF-8 lines are shown as they are, so distances in the text are distances in the source.
  by_cases hvalid : (t.slice lines).IsValidUTF8
  · have hutf8 : String.fromUTF8? (t.slice lines) = some ⟨_, hvalid⟩ := dif_pos hvalid
    simp only [markIn, hutf8, shownBytes, if_pos hvalid, Text.length_word]
    rw [Nat.min_eq_left h.stop_le, Nat.min_eq_left (Nat.le_trans hrange h.stop_le), Nat.add_comm,
      Nat.sub_add_sub_cancel hrange h.start_le]
  · have hutf8 : String.fromUTF8? (t.slice lines) = none := dif_neg hvalid
    simp only [markIn, hutf8, Text.word, length_shownBytes hvalid]

/-- The start of a line can be found again from the column of an offset. -/
theorem column_locate (hfit : buffer.text.LinesFit) (table : LineTable) {offset : Nat}
    (h : offset ≤ buffer.text.size) :
    (table.locate buffer offset).1.column.toNat ≤ offset + 1 ∧
      offset + 1 - (table.locate buffer offset).1.column.toNat = buffer.text.lineStart offset :=
  ⟨toNat_column_le table h, (sub_column_eq_lineStart_iff table h).2 (hfit.columnOf_lt h)⟩

/-- The excerpt of a range, and what the table is after it was asked for its line. -/
theorem excerpt_eq (hfit : buffer.text.LinesFit) (origin : String) (table : LineTable)
    (level : Level) (label : String) (span : Span)
    (hrange : buffer.text.within span = range) (hlines : buffer.text.linesAround range = lines) :
    excerpt origin buffer table level label span =
      (⟨origin, (table.locate buffer range.start).1.line, buffer.text.read lines,
        (markIn buffer.text range lines).1, (markIn buffer.text range lines).2, label, level⟩,
        (table.locate buffer range.start).2) := by
  subst hlines hrange
  -- The column leads back to the start of the line, so both sides look at the same lines.
  have hfirst := column_locate hfit table (Nat.min_le_right span.start buffer.text.size)
  cases hread : String.fromUTF8?
      (buffer.text.slice (buffer.text.linesAround (buffer.text.within span))) with
  | none | some _ =>
    simp only [Text.within, Text.linesAround] at hread
    simp only [excerpt, hfirst.2, markIn, Text.within, Text.linesAround, Text.read, hread]

/-! ## No step fails -/

/-- The difference, if it is not negative. -/
def sub? (m n : Nat) : Option Nat :=
  if n ≤ m then some (m - n) else none

/-- The nearest number between two bounds, if they are in order. -/
def clamp? (n low high : Nat) : Option Nat :=
  if low ≤ high then some (max low (min n high)) else none

/-- A difference that is not negative is formed. -/
theorem sub?_eq {m n : Nat} (h : n ≤ m) : sub? m n = some (m - n) :=
  if_pos h

/-- A number is brought into any range that is not empty. -/
theorem clamp?_eq {low high : Nat} (n : Nat) (h : low ≤ high) :
    clamp? n low high = some (max low (min n high)) :=
  if_pos h

/-- As `markIn`, with every step guarded. -/
def guardedMark (t : Text) (range lines : Span) : Option (Nat × Nat) := do
  let raw ← t.slice? lines
  match String.fromUTF8? raw with
  | some _ =>
    let start ← sub? range.start lines.start
    let stop ← sub? range.stop lines.start
    some (start, stop)
  | none =>
    let before ← t.slice? ⟨lines.start, range.start⟩
    let inside ← t.slice? range
    some (latin1Width before, latin1Width before + latin1Width inside)

/-- As `excerpt`, with every step guarded. -/
def guardedExcerpt (origin : String) (buffer : Buffer) (table : LineTable)
    (level : Level) (label : String) (span : Span) : Option (Excerpt × LineTable) := do
  let t := buffer.text
  let start := min span.start t.size
  let stop ← clamp? span.stop start t.size
  let (place, table) ← table.guardedLocate buffer start
  let first ← sub? (start + 1) place.column.toNat
  let raw ← t.slice? ⟨first, t.lineEnd stop⟩
  let mark ← guardedMark t ⟨start, stop⟩ ⟨first, t.lineEnd stop⟩
  some (⟨origin, place.line, decode raw, mark.1, mark.2, label, level⟩, table)

/-- As `excerpts`, with every step guarded. -/
def guardedExcerpts (origin : String) (buffer : Buffer) (table : LineTable) :
    List (Level × String × Span) → Option (List Excerpt × LineTable)
  | [] => some ([], table)
  | (level, label, span) :: rest => do
    let (shown, table) ← guardedExcerpt origin buffer table level label span
    let (more, table) ← guardedExcerpts origin buffer table rest
    some (shown :: more, table)

/-- As `notice`, with every step guarded. -/
def guardedNotice (problem : Problem) (origin : String) (buffer : Buffer) (table : LineTable) :
    Option (Notice × LineTable) := do
  let (shown, table) ← guardedExcerpts origin buffer table problem.marks
  some (⟨problem.level, problem.message, shown⟩, table)

/-- A mark in whole lines is formed without a check failing. -/
theorem guardedMark_eq (h : t.WholeLines range lines) (hrange : range.start ≤ range.stop) :
    guardedMark t range lines = some (markIn t range lines) := by
  rw [guardedMark, markIn, h.slice?_lines hrange]
  simp only [Option.bind_eq_bind, Option.bind_some]
  split
  · rw [sub?_eq h.start_le, sub?_eq (Nat.le_trans h.start_le hrange)]
    rfl
  · have hinside : t.slice? range = some (t.slice range) := Text.slice?_eq hrange h.stop_le
    rw [Text.slice?_eq h.start_le (Nat.le_trans hrange h.stop_le), hinside]
    rfl

/-- An excerpt is formed without a check failing. -/
theorem guardedExcerpt_eq (hfit : buffer.text.LinesFit) (origin : String) (table : LineTable)
    (level : Level) (label : String) (span : Span) :
    guardedExcerpt origin buffer table level label span =
      some (excerpt origin buffer table level label span) := by
  -- Each check of the guarded excerpt is of a place between the start of the first line and the end
  -- of the last.
  have hrange := buffer.text.start_within_le span
  have hlines := buffer.text.wholeLines_within span
  have hstart := Nat.min_le_right span.start buffer.text.size
  obtain ⟨hcolumn, hfirst⟩ := column_locate hfit table hstart
  have hraw := hlines.slice?_lines hrange
  have hmark := guardedMark_eq hlines hrange
  simp only [Text.within, Text.linesAround] at hraw hmark
  have hfits := Nat.ne_of_lt (hfit.columnOf_lt hstart)
  rw [guardedExcerpt]
  simp only [Option.bind_eq_bind]
  rw [clamp?_eq _ hstart, Option.bind_some, guardedLocate_eq table hstart hfits, Option.bind_some,
    sub?_eq hcolumn, Option.bind_some, hfirst, hraw, Option.bind_some, hmark, Option.bind_some,
    excerpt_eq hfit origin table level label span rfl rfl]
  rfl

/-- The first excerpt is formed first, and the table goes on to the rest. -/
theorem excerpts_cons (origin : String) (buffer : Buffer) (table : LineTable) (level : Level)
    (label : String) (span : Span) (rest : List (Level × String × Span)) :
    excerpts origin buffer table ((level, label, span) :: rest) =
      ((excerpt origin buffer table level label span).1 ::
          (excerpts origin buffer (excerpt origin buffer table level label span).2 rest).1,
        (excerpts origin buffer (excerpt origin buffer table level label span).2 rest).2) := by
  simp only [excerpts]

/-- All excerpts are formed without a check failing. -/
theorem guardedExcerpts_eq (hfit : buffer.text.LinesFit) (origin : String) (table : LineTable)
    (marks : List (Level × String × Span)) :
    guardedExcerpts origin buffer table marks = some (excerpts origin buffer table marks) := by
  induction marks generalizing table with
  | nil => rfl
  | cons mark rest ih =>
    obtain ⟨level, label, span⟩ := mark
    rw [guardedExcerpts, guardedExcerpt_eq hfit, excerpts_cons]
    simp only [Option.bind_eq_bind, Option.bind_some]
    rw [ih]
    rfl

end Problem

/-! ## All excerpts of a problem -/

namespace LineTable

/-- The table is what queries have left of the empty one, about buffers whose keys tell them from
each other and from this one. -/
def Queried (table : LineTable) (buffer : Buffer) : Prop :=
  ∃ queries, ToldApart (buffer :: queries.map Query.buffer) ∧ (empty.locateAll queries).2 = table

/-- What the table holds under the key of the buffer are the counts of the buffer. -/
def Knows (table : LineTable) (buffer : Buffer) : Prop :=
  ∃ texts : Nat → Text, texts buffer.key = buffer.text ∧ table.Sound texts

variable {table : LineTable} {buffer : Buffer}

/-- A table that was asked about this buffer knows its lines. -/
theorem Queried.knows (h : table.Queried buffer) : table.Knows buffer := by
  obtain ⟨queries, hkeys, rfl⟩ := h
  refine ⟨textWithKey (buffer :: queries.map Query.buffer), hkeys.textWithKey_eq List.mem_cons_self,
    ((Sound.empty _).locateAll fun q hq => ?_).2⟩
  exact hkeys.textWithKey_eq (List.mem_cons_of_mem buffer (List.mem_map_of_mem hq))

/-- A table that knows the lines of a buffer answers with them and still knows them. -/
theorem Knows.locate (h : table.Knows buffer) (offset : Nat) :
    (table.locate buffer offset).1.line = buffer.text.lineOf offset ∧
      (table.locate buffer offset).2.Knows buffer := by
  obtain ⟨texts, hbuffer, hsound⟩ := h
  obtain ⟨hplace, hnext⟩ := hsound.locate hbuffer offset
  exact ⟨hplace ▸ placeAt_line buffer.text offset, texts, hbuffer, hnext⟩

end LineTable

/-- The excerpt shows the lines around the part of the range that lies in the text and marks that
part in them. It has the number of the first line, if `numbered`. -/
def Excerpt.IsOf (e : Excerpt) (t : Text) (span : Span) (numbered : Prop) : Prop :=
  ∃ lines, t.WholeLines (t.within span) lines ∧ e.Marks t (t.within span) lines ∧
    (numbered → e.line = t.lineOf lines.start)

/-- An excerpt whose line is right under one condition has the right line under any stronger one. -/
theorem Excerpt.IsOf.imp {e : Excerpt} {t : Text} {span : Span} {p q : Prop} (h : q → p) :
    e.IsOf t span p → e.IsOf t span q :=
  fun ⟨lines, hlines, hmarks, hline⟩ => ⟨lines, hlines, hmarks, hline ∘ h⟩

namespace Problem

variable {buffer : Buffer}

/-- An excerpt shows its span, with the right line if the table knows the lines. -/
theorem excerpt_isOf (hfit : buffer.text.LinesFit) (origin : String) (table : LineTable)
    (level : Level) (label : String) (span : Span) :
    (excerpt origin buffer table level label span).1.IsOf buffer.text span (table.Knows buffer) ∧
      (table.Knows buffer → (excerpt origin buffer table level label span).2.Knows buffer) := by
  have hrange := buffer.text.start_within_le span
  have hlines := buffer.text.wholeLines_within span
  rw [excerpt_eq hfit origin table level label span rfl rfl, markIn_eq hlines hrange]
  dsimp only
  refine ⟨⟨_, hlines, ?_, ?_⟩, ?_⟩
  · exact Excerpt.marks_of_lengths hlines hrange ..
  · exact fun hknows => (hknows.locate _).1.trans hlines.lineOf_start.symm
  · exact fun hknows => (hknows.locate _).2

/-- Each excerpt shows its span. -/
theorem excerpts_isOf (hfit : buffer.text.LinesFit) (origin : String) (table : LineTable)
    (marks : List (Level × String × Span)) :
    List.Forall₂ (fun e mark => e.IsOf buffer.text mark.2.2 (table.Knows buffer))
      (excerpts origin buffer table marks).1 marks := by
  induction marks generalizing table with
  | nil => exact .nil
  | cons mark rest ih =>
    obtain ⟨level, label, span⟩ := mark
    obtain ⟨hfirst, hnext⟩ := excerpt_isOf hfit origin table level label span
    rw [excerpts_cons]
    -- The rest is shown with the table that the first excerpt leaves.
    exact .cons hfirst ((ih _).imp fun _ _ => .imp hnext)

/-- A notice has one excerpt for each mark of its problem. -/
theorem notice_eq (problem : Problem) (origin : String) (buffer : Buffer) (table : LineTable) :
    problem.notice origin buffer table =
      (⟨problem.level, problem.message, (excerpts origin buffer table problem.marks).1⟩,
        (excerpts origin buffer table problem.marks).2) := by
  simp only [notice]

/-- Every excerpt of a problem shows the lines around the range it is for and marks in them exactly
the bytes of that range, whatever the range is and whatever the line table was asked before. The
lines have the right number as long as the keys of the buffers it was asked about tell them apart.
No guard fails on the way: every range that is cut out lies in the text, and no difference is
negative. -/
theorem marked_as_found (problem : Problem) (origin : String) (hfit : buffer.text.LinesFit)
    (table : LineTable) :
    ∃ shown left, problem.guardedNotice origin buffer table = some (shown, left) ∧
      problem.notice origin buffer table = (shown, left) ∧
      List.Forall₂ (fun e mark => e.IsOf buffer.text mark.2.2 (table.Queried buffer))
        shown.excerpts problem.marks := by
  refine ⟨_, _, ?_, notice_eq problem origin buffer table, ?_⟩
  · rw [guardedNotice, guardedExcerpts_eq hfit]
    rfl
  · exact (excerpts_isOf hfit origin table problem.marks).imp
      fun _ _ => .imp LineTable.Queried.knows

/-- Three lines that are no UTF-8. -/
def accented : Buffer :=
  ⟨0, .ofBytes [0xe9, 0x0a, 0x61, 0xe9, 0x0a, 0x62].toByteArray⟩

/-- A table that was asked about these lines and then about an empty text. -/
def asked : LineTable :=
  (LineTable.empty.locateAll [⟨accented, 5⟩, ⟨⟨1, .ofBytes .empty⟩, 0⟩]).2

/-- Text after the termination marker that goes on behind the end of the lines, and a marker that
stops before it starts. -/
def straying : Problem :=
  .tokensAfterTermination ⟨3, 1⟩ ⟨3, 99⟩

theorem marked_as_found_of_straying :
    accented.text.LinesFit ∧ asked.Queried accented ∧
      ∃ shown left, straying.guardedNotice "" accented asked = some (shown, left) ∧
        List.Forall₂ (fun e mark => e.IsOf accented.text mark.2.2 (asked.Queried accented))
          shown.excerpts straying.marks ∧
        shown.excerpts.map (fun e => (e.line, e.source, e.start, e.stop)) =
          [(2, "aé\nb", 1, 5), (2, "aé", 1, 1)] := by
  have hsize : accented.text.size < 0xffffffff := by decide +kernel
  have hfit := Text.LinesFit.of_size_lt hsize
  have hqueried : asked.Queried accented := by
    refine ⟨_, .pair accented ⟨1, .ofBytes .empty⟩ Nat.zero_ne_one ?_, rfl⟩
    simp
  obtain ⟨shown, left, hguarded, hnotice, hmarks⟩ := marked_as_found straying "" hfit asked
  refine ⟨hfit, hqueried, shown, left, hguarded, hmarks, ?_⟩
  rw [show shown = (straying.notice "" accented asked).1 by rw [hnotice]]
  decide +kernel

/-- The line that an excerpt of one fault shows is numbered as the table answers. -/
theorem line_notice_fault (hfit : buffer.text.LinesFit) (origin : String) (table : LineTable)
    (kind : Fault) (span : Span) (h : span.start ≤ buffer.text.size) :
    ((Problem.fault kind span).notice origin buffer table).1.excerpts.map Excerpt.line =
      [(table.locate buffer span.start).1.line] := by
  simp only [notice_eq, marks, span?, Option.toList_some, List.map_cons, List.map_nil,
    excerpts_cons, excerpt_eq hfit origin table _ _ span rfl rfl]
  rw [Text.within, Nat.min_eq_left h]
  rfl

/-- With a table that was asked about another text under the same key, an excerpt shows the second
line of a text as its first. -/
theorem misnumbered_of_shared_key :
    LineTable.longRow.key = LineTable.splitRow.key ∧ LineTable.longRow.text.LinesFit ∧
      LineTable.splitRow.text.LinesFit ∧
      ∃ e, ((Problem.fault .badSan ⟨257, 258⟩).notice "" LineTable.splitRow
          (LineTable.empty.locate LineTable.longRow 256).2).1.excerpts = [e] ∧
        ¬ e.IsOf LineTable.splitRow.text ⟨257, 258⟩ True := by
  obtain ⟨hlong, hsplit⟩ := LineTable.linesFit_rows
  obtain ⟨hagain, hline, -⟩ := LineTable.locate_splitRow
  have hstart : 257 ≤ LineTable.splitRow.text.size := by rw [LineTable.size_rows.2]; decide
  have hshown := line_notice_fault hsplit ""
    (LineTable.empty.locate LineTable.longRow 256).2 .badSan ⟨257, 258⟩ hstart
  obtain ⟨e, hexcerpts, hnumber⟩ := List.map_eq_singleton_iff.1 hshown
  refine ⟨rfl, hlong, hsplit, e, hexcerpts, ?_⟩
  rintro ⟨lines, hlines, -, hnumbered⟩
  have hwithin : (LineTable.splitRow.text.within ⟨257, 258⟩).start = 257 := Nat.min_eq_left hstart
  have htrue := (hnumbered trivial).trans hlines.lineOf_start
  rw [hnumber, hagain, hwithin, hline] at htrue
  cases htrue

end Problem

end Scorebook
