import Scorebook.Movetext.Token
import Scorebook.Proofs.Scanning
import Scorebook.Proofs.Reporter.Places

/-!
# Lines and columns by plain counting

The line of an offset is the number of line feeds in front of it and one more, its column the number
of bytes since the last of them and one more. The line table finds both without looking at all of
the text: it counts pages, blocks of pages in a signed byte, and the rest. Nothing is lost on the
way, because a block is too short for its count to leave the byte; only the column of an offset
very far into its line is not the true one. In a text whose lines are short enough two offsets have
different places. All of this takes it that a key stands for one text; the last section has two
texts under one key, and the table gives one of them the line of the other.
-/

namespace Scorebook

namespace Text

variable {t : Text} {pos mid stop offset : Nat}

/-! ## Counting -/

/-- The number of line feeds in a range. -/
def feeds (t : Text) (pos stop : Nat) : Nat :=
  (t.word ⟨pos, stop⟩).count Byte.newline

/-- The line of an offset, counted from one. -/
def lineOf (t : Text) (offset : Nat) : Nat :=
  (t.word ⟨0, offset⟩).count Byte.newline + 1

/-- The column of an offset, counted in bytes from one. -/
def columnOf (t : Text) (offset : Nat) : Nat :=
  ((t.word ⟨0, offset⟩).reverse.takeWhile (· != Byte.newline)).length + 1

/-- Every line is short enough for its columns to be expressed. -/
def LinesFit (t : Text) : Prop :=
  ∀ pos ≤ t.size, t.lineEnd pos - t.lineStart pos < 0xffffffff

/-- A text that is short enough has no line that is too long. -/
theorem LinesFit.of_size_lt (h : t.size < 0xffffffff) : t.LinesFit := by
  intro pos _
  have := t.lineEnd_le_size pos
  omega

/-- Between an offset and itself there is no line feed. -/
theorem feeds_of_le (h : stop ≤ pos) (t : Text) : t.feeds pos stop = 0 := by
  rw [feeds, word_of_le h, List.count_nil]

theorem feeds_of_size_le (h : t.size ≤ pos) (stop : Nat) : t.feeds pos stop = 0 := by
  have hnil : t.word ⟨pos, stop⟩ = [] := by
    rw [← List.length_eq_zero_iff, length_word]
    simp only
    omega
  rw [feeds, hnil, List.count_nil]

/-- The lines in front of an offset end with as many line feeds. -/
theorem lineOf_eq_feeds (t : Text) (offset : Nat) : t.lineOf offset = t.feeds 0 offset + 1 := rfl

/-- Line feeds are counted part by part. -/
theorem feeds_add (hpos : pos ≤ mid) (hmid : mid ≤ stop) :
    t.feeds pos mid + t.feeds mid stop = t.feeds pos stop := by
  by_cases hsize : mid ≤ t.size
  · rw [feeds, feeds, feeds, ← List.count_append, word_append hpos hmid hsize]
  · have hword {n : Nat} (h : t.size ≤ n) : t.word ⟨pos, n⟩ = t.word ⟨pos, t.size⟩ := by
      rw [word, word, slice, slice, Nat.min_eq_right h, Nat.min_self]
    have hsize := Nat.le_of_not_le hsize
    rw [feeds_of_size_le hsize, feeds, feeds, hword hsize, hword (Nat.le_trans hsize hmid),
      Nat.add_zero]

/-- Line feeds are counted byte by byte. -/
theorem feeds_step (h : pos < stop) :
    t.feeds pos stop =
      (if t[pos]?.any (· == Byte.newline) then 1 else 0) + t.feeds (pos + 1) stop := by
  rw [← feeds_add (Nat.le_succ pos) h]
  refine congrArg (· + t.feeds (pos + 1) stop) ?_
  cases hb : t[pos]? with
  | none => simp [feeds_of_size_le (getElem?_eq_none_iff.1 hb)]
  | some b =>
    rw [feeds, word_succ hb (Nat.le_refl pos), word_of_le (Nat.le_refl pos), List.nil_append,
      List.count_singleton]
    rfl

/-- There are no more line feeds than bytes. -/
theorem feeds_le_sub (t : Text) (pos stop : Nat) : t.feeds pos stop ≤ stop - pos := by
  refine Nat.le_trans List.count_le_length ?_
  rw [length_word]
  simp only
  omega

/-- The bytes since the last line feed are those from the start of the line on. -/
theorem columnOf_eq (h : offset ≤ t.size) :
    t.columnOf offset = offset - t.lineStart offset + 1 := by
  rw [columnOf]
  refine congrArg (· + 1) ?_
  induction offset with
  | zero => rw [word_of_le (Nat.le_refl 0)]; rfl
  | succ offset ih =>
    obtain ⟨b, hb⟩ : ∃ b, t[offset]? = some b := ⟨_, getElem?_eq_some_iff.2 ⟨h, rfl⟩⟩
    have hle := t.lineStart_le offset
    rw [word_succ hb (Nat.zero_le offset), List.reverse_concat, List.takeWhile_cons, lineStart, hb,
      Option.any_some]
    by_cases hfeed : b = Byte.newline
    · simp [hfeed]
    · simp only [bne_iff_ne, ne_eq, hfeed, not_false_eq_true, if_true, beq_iff_eq, if_false,
        List.length_cons, ih (Nat.le_of_succ_le h)]
      omega

/-- The columns of short lines fit 32 bits. -/
theorem LinesFit.columnOf_lt (hfit : t.LinesFit) (h : offset ≤ t.size) :
    t.columnOf offset < 0x100000000 := by
  have hshort := hfit offset h
  have hend := le_lineEnd h
  rw [columnOf_eq h]
  omega

/-! ## Places tell offsets apart -/

/-- Without a line feed between them two offsets are in one line. -/
theorem lineStart_eq_of_feeds (hle : pos ≤ stop) (hfeeds : t.feeds pos stop = 0) :
    t.lineStart stop = t.lineStart pos ∨ stop = pos := by
  induction hle with
  | refl => exact .inr rfl
  | @step stop hle ih =>
    have hsplit := feeds_add (t := t) hle (Nat.le_succ stop)
    have hlast := feeds_step (t := t) (Nat.lt_succ_self stop)
    left
    rw [lineStart, if_neg]
    · rcases ih (by omega) with hstart | rfl
      · exact hstart
      · rfl
    · intro hfeed
      rw [if_pos hfeed] at hlast
      omega

/-- Line and column tell an offset from any later one. -/
theorem eq_of_lineOf_of_columnOf_of_le (hle : pos ≤ offset) (hoffset : offset ≤ t.size)
    (hline : t.lineOf pos = t.lineOf offset) (hcolumn : t.columnOf pos = t.columnOf offset) :
    pos = offset := by
  have hsplit : t.feeds 0 pos + t.feeds pos offset = t.feeds 0 offset :=
    feeds_add (Nat.zero_le pos) hle
  have hnone : t.feeds pos offset = 0 := by
    have : t.feeds 0 pos = t.feeds 0 offset := Nat.succ.inj hline
    omega
  rw [columnOf_eq (Nat.le_trans hle hoffset), columnOf_eq hoffset] at hcolumn
  have := t.lineStart_le pos
  have := t.lineStart_le offset
  rcases lineStart_eq_of_feeds hle hnone with hstart | heq
  · omega
  · exact heq.symm

/-- No two offsets of a text are on the same line in the same column. -/
theorem eq_of_lineOf_of_columnOf (hpos : pos ≤ t.size) (hoffset : offset ≤ t.size)
    (hline : t.lineOf pos = t.lineOf offset) (hcolumn : t.columnOf pos = t.columnOf offset) :
    pos = offset := by
  rcases Nat.le_total pos offset with hle | hle
  · exact eq_of_lineOf_of_columnOf_of_le hle hoffset hline hcolumn
  · exact (eq_of_lineOf_of_columnOf_of_le hle hpos hline.symm hcolumn.symm).symm

end Text

/-! ## The line table counts so -/

namespace LineTable

variable {t : Text} {offset : Nat}

/-- A block is counted downwards. -/
theorem blockCount_eq (t : Text) (stop pos : Nat) (acc : Int8) :
    blockCount t stop pos acc = acc - Int8.ofNat (t.feeds pos stop) := by
  fun_induction blockCount t stop pos acc with
  | case1 pos acc hlt ih =>
    rw [Text.feeds_step hlt, Int8.ofNat_add, ← Int8.sub_sub]
    refine ih.trans (congrArg (· - Int8.ofNat _) ?_)
    split
    · rfl
    · exact (Int8.sub_zero acc).symm
  | case2 pos acc hge =>
    rw [Text.feeds_of_le (Nat.not_lt.1 hge)]
    exact (Int8.sub_zero acc).symm

/-- The count of a block does not leave the byte it is kept in. -/
theorem toNat_blockCount {pos stop : Nat} (h : stop ≤ pos + blockSize) :
    (-(blockCount t stop pos 0)).toUInt8.toNat = t.feeds pos stop := by
  have hle := t.feeds_le_sub pos stop
  simp only [blockSize] at h
  rw [blockCount_eq, Int8.zero_sub, Int8.neg_neg, Int8.toUInt8_ofNat',
    UInt8.toNat_ofNat_of_lt' (show _ < 2 ^ 8 by omega)]

/-- Counting by blocks of signed bytes is counting. -/
theorem feedCount_eq (t : Text) (stop pos acc : Nat) :
    feedCount t stop pos acc = acc + t.feeds pos stop := by
  fun_induction feedCount t stop pos acc with
  | case1 pos acc hlt ih =>
    rw [ih, toNat_blockCount (Nat.min_le_left ..), Nat.add_assoc]
    refine congrArg (acc + ·) ?_
    rcases Nat.le_total (pos + blockSize) stop with hle | hle
    · rw [Nat.min_eq_left hle, Text.feeds_add (Nat.le_add_right ..) hle]
    · rw [Nat.min_eq_right hle, Text.feeds_of_le hle, Nat.add_zero]
  | case2 pos acc hge => rw [Text.feeds_of_le (Nat.not_lt.1 hge), Nat.add_zero]

/-- An entry of the table counts from the beginning. -/
theorem pageCount_eq (t : Text) (page : Nat) : pageCount t page = t.feeds 0 (page * pageSize) := by
  induction page with
  | zero => rw [Nat.zero_mul, Text.feeds_of_le (Nat.le_refl 0)]; rfl
  | succ page ih =>
    rw [pageCount, ih, feedCount_eq, Nat.zero_add,
      Text.feeds_add (Nat.zero_le _) (Nat.mul_le_mul_right _ (Nat.le_succ page))]

theorem placeAt_line (t : Text) (offset : Nat) : (placeAt t offset).line = t.lineOf offset := by
  simp only [placeAt, pageCount_eq, feedCount_eq, Nat.zero_add]
  rw [Text.feeds_add (Nat.zero_le _) (Nat.div_mul_le_self offset pageSize), Text.lineOf_eq_feeds]

/-- A column is the distance plus one, modulo 32 bits. -/
theorem toNat_column_eq (distance : Nat) :
    (column distance).toNat = (clip distance + 1) % UInt32.size := by
  rw [column, UInt32.toNat_add, UInt32.toNat_ofNat', Nat.mod_add_mod]
  rfl

/-- The column is one more than the distance, or the last one if that is smaller. One distance is
not clipped and leaves no room for one more. -/
theorem toNat_column_eq_ite (distance : Nat) :
    (column distance).toNat =
      if distance + 1 = 0x100000000 then 0 else min (distance + 1) 0xffffffff := by
  rw [toNat_column_eq, clip]
  simp only [UInt32.size, lastOffset]
  rcases Nat.lt_trichotomy (distance + 1) 0x100000000 with hlt | heq | hgt
  · rw [if_pos (Nat.lt_of_succ_lt hlt), if_neg (Nat.ne_of_lt hlt), Nat.mod_eq_of_lt hlt]
    omega
  · obtain rfl : distance = 0xffffffff := Nat.succ.inj heq
    rfl
  · rw [if_neg (Nat.not_lt.2 (Nat.le_of_lt_succ hgt)), if_neg (Nat.ne_of_gt hgt)]
    omega

/-- A column that fits is exact. -/
theorem toNat_column {distance : Nat} (h : distance < 0xffffffff) :
    (column distance).toNat = distance + 1 := by
  rw [toNat_column_eq_ite, if_neg (Nat.ne_of_lt (Nat.succ_lt_succ h))]
  exact Nat.min_eq_left h

/-- The column is the true one unless the line is too long for it. -/
theorem placeAt_column (hfit : t.LinesFit) (h : offset ≤ t.size) :
    (placeAt t offset).column.toNat = t.columnOf offset := by
  have hlt := hfit.columnOf_lt h
  rw [Text.columnOf_eq h] at hlt ⊢
  exact toNat_column (Nat.lt_of_succ_lt_succ hlt)

/-- In a text of short lines places are counted by hand. -/
theorem placeAt_eq (hfit : t.LinesFit) (h : offset ≤ t.size) :
    placeAt t offset = ⟨t.lineOf offset, .ofNat (t.columnOf offset)⟩ := by
  rw [← placeAt_line, ← placeAt_column hfit h, UInt32.ofNat_toNat]

/-- Different offsets have different places. -/
theorem placeAt_injective (hfit : t.LinesFit) {pos : Nat} (hpos : pos ≤ t.size)
    (hoffset : offset ≤ t.size) (heq : placeAt t pos = placeAt t offset) : pos = offset := by
  apply Text.eq_of_lineOf_of_columnOf hpos hoffset
  · rw [← placeAt_line, ← placeAt_line, heq]
  · rw [← placeAt_column hfit hpos, ← placeAt_column hfit hoffset, heq]

/-! ## Two texts under one key -/

/-- A table that is full enough stays as it is. -/
theorem fill_of_lt {counts : Array Nat} {want : Nat} (h : want < counts.size) (t : Text) :
    fill t want counts = counts := by
  rw [fill, if_neg (Nat.not_le.2 h)]

/-- A table that has counted one text is asked about another one under the same key. It answers with
the line feeds of the first text up to the page of the offset, and with those of the second only
from there on. -/
theorem line_locate_of_shared_key {first second : Buffer} (hkey : first.key = second.key)
    (asked offset : Nat) (hle : offset / pageSize ≤ asked / pageSize) :
    ((empty.locate first asked).2.locate second offset).1.line =
      first.text.feeds 0 (offset / pageSize * pageSize) +
        second.text.feeds (offset / pageSize * pageSize) offset + 1 := by
  have hcounts := (CountsOf.singleton first.text).fill Nat.one_ne_zero (asked / pageSize)
  have hasked := lt_size_fill first.text (asked / pageSize) #[0]
  have hlt := Nat.lt_of_le_of_lt hle hasked
  have hpage := hcounts _ _ (Array.getElem?_eq_getElem hlt)
  -- The key agrees and there are counts, so the second query takes them for its own.
  have htable : (empty.locate first asked).2.extend second offset =
      ⟨some second.key, fill first.text (asked / pageSize) #[0]⟩ := by
    simp only [locate, extend, empty, reduceCtorEq, false_and, if_false, hkey, true_and]
    rw [if_pos (Nat.ne_of_gt (Nat.zero_lt_of_lt hlt)), fill_of_lt hlt]
  rw [locate, htable]
  simp only [Array.getElem?_eq_getElem hlt, Option.getD_some, hpage, pageCount_eq, feedCount_eq,
    Nat.zero_add]

/-- The column of a place is told by its own text, whatever the table holds. -/
theorem column_locate_eq (table : LineTable) (buffer : Buffer) (offset : Nat) :
    (table.locate buffer offset).1.column = column (offset - buffer.text.lineStart offset) :=
  rfl

/-- One line of three hundred letters. -/
def longRow : Buffer :=
  ⟨0, .ofBytes (List.replicate 300 0x78).toByteArray⟩

/-- As many bytes under the same key, of which the first is a line feed. -/
def splitRow : Buffer :=
  ⟨0, .ofBytes (Byte.newline :: List.replicate 299 0x78).toByteArray⟩

/-- Each row has three hundred bytes. -/
theorem size_rows : longRow.text.size = 300 ∧ splitRow.text.size = 300 := by
  constructor
  · rw [longRow, Text.size_ofBytes, List.size_toByteArray, List.length_replicate]
  · rw [splitRow, Text.size_ofBytes, List.size_toByteArray, List.length_cons,
      List.length_replicate]

/-- Both rows are short. -/
theorem linesFit_rows : longRow.text.LinesFit ∧ splitRow.text.LinesFit := by
  obtain ⟨hlong, hsplit⟩ := size_rows
  exact ⟨.of_size_lt (by omega), .of_size_lt (by omega)⟩

/-- The first bytes of both rows are letters, but for the line feed that the second starts with. -/
theorem word_rows :
    longRow.text.word ⟨0, 256⟩ = List.replicate 256 0x78 ∧
      splitRow.text.word ⟨0, 256⟩ = Byte.newline :: List.replicate 255 0x78 ∧
      splitRow.text.word ⟨0, 257⟩ = Byte.newline :: List.replicate 256 0x78 := by
  refine ⟨?_, ?_, ?_⟩
  · rw [longRow, Text.word_ofBytes, List.take_replicate]
    rfl
  · rw [splitRow, Text.word_ofBytes, List.take_succ_cons, List.take_replicate]
    rfl
  · rw [splitRow, Text.word_ofBytes, List.take_succ_cons, List.take_replicate]
    rfl

/-- The first page of the long row has no line feed, that of the other one has its only one. -/
theorem feeds_rows :
    longRow.text.feeds 0 256 = 0 ∧ splitRow.text.feeds 0 256 = 1 ∧
      splitRow.text.feeds 0 257 = 1 := by
  obtain ⟨hlong, hpage, hsplit⟩ := word_rows
  have hnone (n : Nat) : (List.replicate n (0x78 : UInt8)).count Byte.newline = 0 := by
    rw [List.count_replicate]
    rfl
  rw [Text.feeds, Text.feeds, Text.feeds, hlong, hpage, hsplit, List.count_cons_self,
    List.count_cons_self, hnone, hnone]
  exact ⟨rfl, rfl, rfl⟩

/-- The same letter stands at the end of the first line and of the second. -/
theorem columnOf_rows : longRow.text.columnOf 256 = 257 ∧ splitRow.text.columnOf 257 = 257 := by
  obtain ⟨hlong, -, hsplit⟩ := word_rows
  have hletter : ((0x78 : UInt8) != Byte.newline) = true := rfl
  have hletters : ∀ b ∈ List.replicate 256 (0x78 : UInt8), (b != Byte.newline) = true := by
    intro b hb
    rw [List.eq_of_mem_replicate hb, hletter]
  constructor
  · rw [Text.columnOf, hlong, List.reverse_replicate, List.takeWhile_replicate, if_pos hletter,
      List.length_replicate]
  · rw [Text.columnOf, hsplit, List.reverse_cons, List.reverse_replicate,
      List.takeWhile_append_of_pos hletters, List.length_append, List.length_replicate]
    rfl

/-- A fresh table finds the end of the first page in the first line of the long row. -/
theorem locate_longRow : (empty.locate longRow 256).1 = ⟨1, 257⟩ := by
  have hle : 256 ≤ longRow.text.size := by rw [size_rows.1]; decide
  rw [((Sound.empty fun _ => longRow.text).locate rfl 256).1, placeAt_eq linesFit_rows.1 hle,
    Text.lineOf_eq_feeds, feeds_rows.1, columnOf_rows.1]
  rfl

/-- Asked about the first of the two rows, a table takes the second line of the other for its
first. -/
theorem locate_splitRow :
    ((empty.locate longRow 256).2.locate splitRow 257).1 = ⟨1, 257⟩ ∧
      splitRow.text.lineOf 257 = 2 ∧ splitRow.text.columnOf 257 = 257 := by
  obtain ⟨hfirst, hpage, hall⟩ := feeds_rows
  have hkey : longRow.key = splitRow.key := rfl
  have hline := line_locate_of_shared_key hkey 256 257 (by decide)
  have hcolumn := column_locate_eq (empty.locate longRow 256).2 splitRow 257
  have hrest : splitRow.text.feeds 256 257 = 0 := by
    have hsum : splitRow.text.feeds 0 256 + splitRow.text.feeds 256 257 =
        splitRow.text.feeds 0 257 := Text.feeds_add (by decide) (by decide)
    omega
  have hstart : 257 - splitRow.text.lineStart 257 = 256 := by
    have hle : 257 ≤ splitRow.text.size := by rw [size_rows.2]; decide
    have hdistance := Text.columnOf_eq hle
    rw [columnOf_rows.2] at hdistance
    omega
  rw [show 257 / pageSize * pageSize = 256 from rfl, hfirst, hrest] at hline
  rw [hstart] at hcolumn
  refine ⟨?_, by rw [Text.lineOf_eq_feeds, hall], columnOf_rows.2⟩
  generalize ((empty.locate longRow 256).2.locate splitRow 257).1 = place at hline hcolumn
  obtain ⟨line, column⟩ := place
  simp only at hline hcolumn
  rw [hline, hcolumn]
  rfl

end LineTable

end Scorebook
