import Scorebook.Proofs.Text.Queries

/-!
# Columns of very long lines

A column has 32 bits and is counted from one. A distance from the start of the line that does not
fit is replaced by one that leaves room for counting from one, so that all offsets too far into
their line share the last column. The largest distance that does fit is not replaced, and one more
than it has no room. So the column of an offset is the true one or the last one, except where the
true one is 2 ^ 32: there the sum overflows (`LineTable.column_saturates_iff`). The start of a line
can be found again from a column as long as the line is short enough for the true one
(`LineTable.sub_column_eq_lineStart_iff`).
-/

namespace Scorebook

namespace LineTable

variable {buffer : Buffer} {offset : Nat}

/-! ## The column of an offset -/

/-- The column of an offset by the column that plain counting gives it. -/
theorem toNat_column_locate (table : LineTable) (h : offset ≤ buffer.text.size) :
    (table.locate buffer offset).1.column.toNat =
      if buffer.text.columnOf offset = 0x100000000 then 0
      else min (buffer.text.columnOf offset) 0xffffffff := by
  rw [Text.columnOf_eq h]
  exact toNat_column_eq_ite _

/-- A query finds no place exactly where a guard fails. -/
theorem locate?_eq_guardedLocate (table : LineTable) (buffer : Buffer) (offset : Nat) :
    table.locate? buffer offset = table.guardedLocate buffer offset := by
  by_cases h : offset ≤ buffer.text.size
  · have hwraps : (table.locate buffer offset).1.column = 0 ↔
        buffer.text.columnOf offset = 0x100000000 := by
      have hpos : 0 < buffer.text.columnOf offset := Nat.succ_pos _
      rw [← UInt32.toNat_inj, toNat_column_locate table h, UInt32.toNat_zero]
      split <;> omega
    rw [guardedLocate_eq_ite table h, locate?, if_pos h]
    simp only [hwraps]
  · rw [locate?, guardedLocate, if_neg h, if_neg h]

/-! ## Going back by the column -/

/-- The column is no larger than what it is subtracted from to find the start of the line. -/
theorem toNat_column_le (table : LineTable) (h : offset ≤ buffer.text.size) :
    (table.locate buffer offset).1.column.toNat ≤ offset + 1 := by
  rw [toNat_column_locate table h, Text.columnOf_eq h]
  split <;> omega

/-- The start of a line is found again from an offset and its column exactly if the true column
fits 32 bits. -/
theorem sub_column_eq_lineStart_iff (table : LineTable) (h : offset ≤ buffer.text.size) :
    offset + 1 - (table.locate buffer offset).1.column.toNat = buffer.text.lineStart offset ↔
      buffer.text.columnOf offset < 0x100000000 := by
  have hstart := buffer.text.lineStart_le offset
  rw [toNat_column_locate table h, Text.columnOf_eq h]
  split <;> omega

/-! ## Saturation -/

/-- An offset of a text has the column that plain counting gives it, or the last column if that is
smaller, and no guard fails on the way, exactly if plain counting does not give it the column
2 ^ 32. Where it does, the sum that forms the column does not fit 32 bits: no place is found, and
what the sum leaves is zero. What the table was asked before is of no consequence. -/
theorem column_saturates_iff (table : LineTable) (h : offset ≤ buffer.text.size) :
    ((∃ place left, table.guardedLocate buffer offset = some (place, left) ∧
        table.locate? buffer offset = some (place, left) ∧
        place.column.toNat = min (buffer.text.columnOf offset) 0xffffffff) ↔
      buffer.text.columnOf offset ≠ 0x100000000) ∧
    (buffer.text.columnOf offset = 0x100000000 →
      guardedColumn (offset - buffer.text.lineStart offset) = none ∧
        table.locate? buffer offset = none ∧ (table.locate buffer offset).1.column = 0) := by
  have hguarded := guardedLocate_eq_ite table h
  have hrun := locate?_eq_guardedLocate table buffer offset
  have hcolumn := toNat_column_locate table h
  refine ⟨⟨?_, ?_⟩, ?_⟩
  · rintro ⟨place, left, hsome, -, -⟩ heq
    rw [hguarded, if_pos heq] at hsome
    cases hsome
  · intro hne
    rw [if_neg hne] at hguarded hcolumn
    exact ⟨_, _, hguarded, hrun.trans hguarded, hcolumn⟩
  · intro heq
    rw [if_pos heq] at hguarded hcolumn
    refine ⟨?_, hrun.trans hguarded, UInt32.toNat_inj.1 hcolumn⟩
    rw [guardedColumn_eq, ← Text.columnOf_eq h, if_pos heq]

/-- One line of this many letters. -/
def letters (n : Nat) : Buffer :=
  ⟨0, .ofBytes (List.replicate n 0x78).toByteArray⟩

theorem size_letters (n : Nat) : (letters n).text.size = n := by
  rw [letters, Text.size_ofBytes, List.size_toByteArray, List.length_replicate]

/-- In one line the column is counted from the beginning. -/
theorem columnOf_letters {n offset : Nat} (h : offset ≤ n) :
    (letters n).text.columnOf offset = offset + 1 := by
  have hall : (List.replicate offset (0x78 : UInt8)).takeWhile (· != Byte.newline) =
      List.replicate offset 0x78 := by
    rw [List.takeWhile_replicate]
    rfl
  simp only [Text.columnOf, letters, Text.word_ofBytes, List.take_replicate, Nat.min_eq_left h,
    List.reverse_replicate, hall, List.length_replicate]

theorem column_saturates_iff_of_longer :
    0x100000000 ≤ (letters 0x100000000).text.size ∧
      ∃ place left, empty.guardedLocate (letters 0x100000000) 0x100000000 = some (place, left) ∧
        place.column.toNat = 0xffffffff := by
  have hsize : 0x100000000 ≤ (letters 0x100000000).text.size := Nat.le_of_eq (size_letters _).symm
  have hcount := columnOf_letters (Nat.le_refl 0x100000000)
  obtain ⟨place, left, hguarded, -, hcolumn⟩ :=
    (column_saturates_iff empty hsize).1.2 (by rw [hcount]; decide)
  refine ⟨hsize, place, left, hguarded, ?_⟩
  rw [hcolumn, hcount]
  rfl

/-- At the end of a line of 2 ^ 32 - 1 letters the column should be the last one. The sum that forms
it overflows and leaves zero. -/
theorem column_wraps_at_limit :
    0xffffffff ≤ (letters 0xffffffff).text.size ∧
      min ((letters 0xffffffff).text.columnOf 0xffffffff) 0xffffffff = 0xffffffff ∧
      (empty.locate (letters 0xffffffff) 0xffffffff).1.column = 0 ∧
      empty.guardedLocate (letters 0xffffffff) 0xffffffff = none := by
  have hsize : 0xffffffff ≤ (letters 0xffffffff).text.size := Nat.le_of_eq (size_letters _).symm
  have hcount := columnOf_letters (Nat.le_refl 0xffffffff)
  have heq : (letters 0xffffffff).text.columnOf 0xffffffff = 0x100000000 := hcount
  have hcolumn := toNat_column_locate empty hsize
  rw [if_pos heq] at hcolumn
  refine ⟨hsize, ?_, UInt32.toNat_inj.1 hcolumn, ?_⟩
  · rw [heq]
    rfl
  · rw [guardedLocate_eq_ite empty hsize, if_pos heq]

end LineTable

end Scorebook
