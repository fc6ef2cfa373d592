import Scorebook.Proofs.Reporter.Counting

/-!
# Locating offsets with every step guarded

A line table cuts ranges out of the text, asks for entries of its index, counts in a signed byte and
forms a column in 32 bits. Reading past the end of a text yields nothing here and arithmetic on
bytes wraps around, so that nothing goes wrong has to be said apart. The guarded functions take the
same steps, and fail where a range does not lie in the text, an entry is missing or a number leaves
its type. For an offset inside the text only the last of these can happen, whatever the table was
asked before, and only where the true column is 2 ^ 32 (`LineTable.guardedLocate_eq_ite`).
-/

namespace Scorebook

/-- The bytes of a range, if the range lies in the text. -/
def Text.slice? (t : Text) (s : Span) : Option ByteArray :=
  if s.start ≤ s.stop ∧ s.stop ≤ t.size then some (t.slice s) else none

/-- A range of the text can be sliced out. -/
theorem Text.slice?_eq {t : Text} {start stop : Nat} (hle : start ≤ stop) (hsize : stop ≤ t.size) :
    t.slice? ⟨start, stop⟩ = some (t.slice ⟨start, stop⟩) :=
  if_pos ⟨hle, hsize⟩

namespace LineTable

/-! ## Guarded steps -/

/-- One less, if the byte can hold that. -/
def pred? (acc : Int8) : Option Int8 :=
  if acc = Int8.minValue then none else some (acc - 1)

/-- Minus the number of line feeds in a block, counted down from `acc`. -/
def guardedBlock (acc : Int8) : List UInt8 → Option Int8
  | [] => some acc
  | b :: rest =>
    if b = Byte.newline then do
      let acc ← pred? acc
      guardedBlock acc rest
    else guardedBlock acc rest

/-- The number of line feeds in a page, block by block. -/
def guardedCount (acc : Nat) (page : List UInt8) : Option Nat :=
  if page = [] then some acc
  else do
    let inner ← guardedBlock 0 (page.take blockSize)
    guardedCount (acc + (-inner).toUInt8.toNat) (page.drop blockSize)
termination_by page.length
decreasing_by
  have := List.length_pos_iff.2 ‹_›
  simp only [List.length_drop, blockSize]
  omega

/-- The number of line feeds in a range of the text. -/
def guardedFeeds (t : Text) (start stop : Nat) : Option Nat := do
  let page ← t.slice? ⟨start, stop⟩
  guardedCount 0 page.data.toList

/-- Fills the table up to the page `want`. -/
def guardedFill (t : Text) (want : Nat) (counts : Array Nat) : Option (Array Nat) :=
  if counts.size ≤ want then do
    let page := counts.size - 1
    let count ← counts[page]?
    let feeds ← guardedFeeds t (page * pageSize) ((page + 1) * pageSize)
    guardedFill t want (counts.push (count + feeds))
  else some counts
termination_by want + 1 - counts.size
decreasing_by simp only [Array.size_push]; omega

/-- The table of `buffer`, filled up to the page that holds `offset`. -/
def guardedExtend (table : LineTable) (buffer : Buffer) (offset : Nat) : Option LineTable := do
  let counts := if table.key = some buffer.key ∧ table.counts.size ≠ 0 then table.counts else #[0]
  let counts ← guardedFill buffer.text (offset / pageSize) counts
  some ⟨some buffer.key, counts⟩

/-- The column of an offset this far into its line, if 32 bits can hold it. -/
def guardedColumn (distance : Nat) : Option UInt32 :=
  let distance := clip distance
  if distance + 1 < UInt32.size then some (UInt32.ofNat distance + 1) else none

/-- The line and column of an offset of the buffer, and the table that now knows more. -/
def guardedLocate (table : LineTable) (buffer : Buffer) (offset : Nat) :
    Option (Place × LineTable) :=
  if offset ≤ buffer.text.size then do
    let table ← table.guardedExtend buffer offset
    let page := offset / pageSize
    let count ← table.counts[page]?
    let feeds ← guardedFeeds buffer.text (page * pageSize) offset
    let _ ← buffer.text.slice? ⟨0, offset⟩
    let column ← guardedColumn (offset - buffer.text.lineStart offset)
    some (⟨count + feeds + 1, column⟩, table)
  else none

/-! ## Which guards fail -/

variable {t : Text} {counts : Array Nat} {want offset start stop : Nat}

/-- Counting down does not wrap around. -/
theorem pred?_eq {acc : Int8} (h : -128 < acc.toInt) :
    pred? acc = some (acc - 1) ∧ (acc - 1).toInt = acc.toInt - 1 := by
  have hlt := acc.toInt_lt
  have hone : (1 : Int8).toInt = 1 := rfl
  constructor
  · refine if_neg ?_
    rintro rfl
    exact absurd h (by decide)
  · rw [Int8.toInt_sub, hone, Int.bmod_eq_of_le (by omega) (by omega)]

/-- A block is counted as long as the byte can hold minus the number of its line feeds. -/
theorem guardedBlock_eq {acc : Int8} {block : List UInt8}
    (h : block.count Byte.newline ≤ acc.toInt + 128) :
    guardedBlock acc block = some (acc - Int8.ofNat (block.count Byte.newline)) := by
  induction block generalizing acc with
  | nil => exact congrArg some (Int8.sub_zero acc).symm
  | cons b rest ih =>
    rw [guardedBlock]
    split
    · next hfeed =>
      rw [hfeed, List.count_cons_self] at h ⊢
      obtain ⟨hpred, hone⟩ := pred?_eq (show -128 < acc.toInt by omega)
      rw [hpred, Option.bind_eq_bind, Option.bind_some, ih (by omega), Int8.sub_sub,
        Int8.ofNat_add, Int8.add_comm]
      rfl
    · next hother =>
      rw [List.count_cons_of_ne hother] at h ⊢
      exact ih h

/-- Counting the line feeds of a page by blocks overflows nowhere. -/
theorem guardedCount_eq (acc : Nat) (page : List UInt8) :
    guardedCount acc page = some (acc + page.count Byte.newline) := by
  fun_induction guardedCount acc page with
  | case1 acc => rw [List.count_nil, Nat.add_zero]
  | case2 acc page hne ih =>
    -- A block may be all line feeds. Minus 128 is the least that the byte holds, and its own
    -- negative there.
    have hle : (page.take blockSize).count Byte.newline ≤ 128 :=
      Nat.le_trans List.count_le_length (List.length_take_le ..)
    have hblock : guardedBlock 0 (page.take blockSize) =
        some (0 - Int8.ofNat ((page.take blockSize).count Byte.newline)) := by
      refine guardedBlock_eq ?_
      rw [Int8.toInt_zero]
      omega
    have hcount : (-(0 - Int8.ofNat ((page.take blockSize).count Byte.newline))).toUInt8.toNat =
        (page.take blockSize).count Byte.newline := by
      rw [Int8.zero_sub, Int8.neg_neg, Int8.toUInt8_ofNat',
        UInt8.toNat_ofNat_of_lt' (show _ < 2 ^ 8 by omega)]
    rw [hblock, Option.bind_eq_bind, Option.bind_some, ih, hcount, Nat.add_assoc,
      ← List.count_append, List.take_append_drop]

/-- The line feeds of a range of the text are counted without a check failing. -/
theorem guardedFeeds_eq (hle : start ≤ stop) (hsize : stop ≤ t.size) :
    guardedFeeds t start stop = some (t.feeds start stop) := by
  rw [guardedFeeds, Text.slice?_eq hle hsize, Option.bind_eq_bind, Option.bind_some,
    guardedCount_eq, Nat.zero_add]
  rfl

/-- Filling the table reads whole pages that lie in the text. -/
theorem guardedFill_eq (hcounts : counts.size ≠ 0) (hwant : want * pageSize ≤ t.size) :
    guardedFill t want counts = some (fill t want counts) := by
  fun_induction fill t want counts with
  | case1 counts hle page ih =>
    have hpage : (page + 1) * pageSize ≤ t.size :=
      Nat.le_trans (Nat.mul_le_mul_right _ (show page + 1 ≤ want by omega)) hwant
    have hlast : counts[page]? = some (counts.back?.getD 0) := by
      have hlt : page < counts.size := by omega
      rw [Array.back?_eq_getElem?, Array.getElem?_eq_getElem hlt, Option.getD_some]
    rw [guardedFill, if_pos hle]
    simp only [Option.bind_eq_bind]
    rw [hlast, Option.bind_some, guardedFeeds_eq (Nat.mul_le_mul_right _ (Nat.le_succ page)) hpage,
      Option.bind_some, ← ih (by rw [Array.size_push]; omega), feedCount_eq, Nat.zero_add]
  | case2 counts hlt => rw [guardedFill, if_neg hlt]

/-- Only the largest distance that fits 32 bits leaves no room for counting from one. -/
theorem clip_succ_lt_iff {distance : Nat} :
    clip distance + 1 < UInt32.size ↔ distance + 1 ≠ 0x100000000 := by
  rw [clip]
  split <;> simp only [lastOffset, UInt32.size] at * <;> omega

/-- A column is formed, but for the one distance that overflows. -/
theorem guardedColumn_eq (distance : Nat) :
    guardedColumn distance =
      if distance + 1 = 0x100000000 then none else some (column distance) := by
  simp only [guardedColumn, clip_succ_lt_iff, ne_eq, ite_not]
  rfl

/-- An offset inside the text is located without any guard failing but that of its column, whatever
the table holds. -/
theorem guardedLocate_eq_ite (table : LineTable) {buffer : Buffer} (h : offset ≤ buffer.text.size) :
    table.guardedLocate buffer offset =
      if buffer.text.columnOf offset = 0x100000000 then none
      else some (table.locate buffer offset) := by
  -- Whole pages are counted in front of the offset only, so none of them leaves the text.
  have hpage := Nat.div_mul_le_self offset pageSize
  have hextend : table.guardedExtend buffer offset = some (table.extend buffer offset) := by
    rw [guardedExtend]
    simp only [Option.bind_eq_bind]
    rw [guardedFill_eq (table.size_counts_ne buffer) (Nat.le_trans hpage h)]
    rfl
  have hcount := Array.getElem?_eq_getElem (lt_size_fill buffer.text (offset / pageSize)
    (if table.key = some buffer.key ∧ table.counts.size ≠ 0 then table.counts else #[0]))
  have hknown : (table.extend buffer offset).counts[offset / pageSize]? =
      some ((table.extend buffer offset).counts[offset / pageSize]?.getD 0) := by
    rw [extend, hcount, Option.getD_some]
  rw [guardedLocate, if_pos h, hextend]
  simp only [Option.bind_eq_bind, Option.bind_some]
  rw [hknown, guardedFeeds_eq hpage h, Text.slice?_eq (Nat.zero_le offset) h, guardedColumn_eq,
    Text.columnOf_eq h]
  simp only [Option.bind_some]
  split
  · rfl
  · rw [Option.bind_some, locate, feedCount_eq, Nat.zero_add]

/-- An offset of the text is located without a check failing, but for that distance. -/
theorem guardedLocate_eq (table : LineTable) {buffer : Buffer} (h : offset ≤ buffer.text.size)
    (hcolumn : buffer.text.columnOf offset ≠ 0x100000000) :
    table.guardedLocate buffer offset = some (table.locate buffer offset) := by
  rw [guardedLocate_eq_ite table h, if_neg hcolumn]

end LineTable

end Scorebook
