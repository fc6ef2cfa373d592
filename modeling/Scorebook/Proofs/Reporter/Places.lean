import Scorebook.Reporter

/-!
# The places of problems

A line table counts line feeds only where it has not counted them before, so what it answers might
depend on what it was asked earlier, and about which buffers. It does not: a table whose counts are
those of the buffer it has the key of answers with `LineTable.placeAt`, which knows of no table, and
such a table it stays. So a problem has one mark in a text, whenever it is reported.
-/

namespace Scorebook

namespace LineTable

variable {t : Text} {texts : Nat → Text} {table : LineTable} {buffer : Buffer}
  {counts : Array Nat} {want : Nat}

/-- The line feeds in front of a page, counted page by page. -/
def pageCount (t : Text) : Nat → Nat
  | 0 => 0
  | page + 1 => pageCount t page + feedCount t ((page + 1) * pageSize) (page * pageSize) 0

/-- The counts are those of the pages of this text. -/
def CountsOf (t : Text) (counts : Array Nat) : Prop :=
  ∀ page count, counts[page]? = some count → count = pageCount t page

/-- The table counts the buffer it has the key of, where `texts` says which text has which key. -/
def Sound (texts : Nat → Text) (table : LineTable) : Prop :=
  ∀ key, table.key = some key → CountsOf (texts key) table.counts

/-- An empty table is right about every text. -/
theorem Sound.empty (texts : Nat → Text) : LineTable.empty.Sound texts :=
  nofun

/-- Where an offset of a text is, whichever table is asked. -/
def placeAt (t : Text) (offset : Nat) : Place :=
  ⟨pageCount t (offset / pageSize) + feedCount t offset (offset / pageSize * pageSize) 0 + 1,
    column (offset - t.lineStart offset)⟩

/-- In front of the first page there is no line feed. -/
theorem CountsOf.singleton (t : Text) : CountsOf t #[0] := by
  intro page count hcount
  obtain ⟨hpage, rfl⟩ := Array.getElem?_eq_some_iff.1 hcount
  obtain rfl : page = 0 := Nat.lt_one_iff.1 hpage
  rfl

/-- A table that is filled knows the page it was filled up to. -/
theorem lt_size_fill (t : Text) (want : Nat) (counts : Array Nat) :
    want < (fill t want counts).size := by
  fun_induction fill t want counts with
  | case1 _ _ _ ih => exact ih
  | case2 counts hlt => exact Nat.not_le.1 hlt

/-- Filling a table counts the pages it lacks. -/
theorem CountsOf.fill (h : CountsOf t counts) (hsize : counts.size ≠ 0) (want : Nat) :
    CountsOf t (fill t want counts) := by
  fun_induction LineTable.fill t want counts with
  | case1 counts hle page ih =>
    refine ih ?_ (by rw [Array.size_push]; omega)
    intro i count hcount
    rw [Array.getElem?_push] at hcount
    split at hcount
    · next hi =>
      obtain ⟨last, hlast⟩ : ∃ last, counts[page]? = some last :=
        ⟨_, Array.getElem?_eq_getElem (show page < counts.size by omega)⟩
      have hback : counts.back? = some last := by rw [Array.back?_eq_getElem?, hlast]
      obtain rfl : i = page + 1 := by omega
      cases hcount
      rw [hback, Option.getD_some, h page last hlast]
      rfl
    · exact h i count hcount
  | case2 counts hlt => exact h

/-- What is left of a table for a query about this buffer. -/
theorem size_counts_ne (table : LineTable) (buffer : Buffer) :
    (if table.key = some buffer.key ∧ table.counts.size ≠ 0 then table.counts else #[0]).size
      ≠ 0 := by
  split
  · next hkey => exact hkey.2
  · exact Nat.one_ne_zero

/-- A sound table answers as any other, and stays sound. -/
theorem Sound.locate (h : table.Sound texts) (hbuffer : texts buffer.key = buffer.text)
    (offset : Nat) :
    (table.locate buffer offset).1 = placeAt buffer.text offset ∧
      (table.locate buffer offset).2.Sound texts := by
  have hstart : CountsOf buffer.text
      (if table.key = some buffer.key ∧ table.counts.size ≠ 0 then table.counts else #[0]) := by
    split
    · next hkey => exact hbuffer ▸ h buffer.key hkey.1
    · exact .singleton buffer.text
  have hcounts := hstart.fill (table.size_counts_ne buffer) (offset / pageSize)
  have hlt := lt_size_fill buffer.text (offset / pageSize)
    (if table.key = some buffer.key ∧ table.counts.size ≠ 0 then table.counts else #[0])
  constructor
  · have hpage := hcounts _ _ (Array.getElem?_eq_getElem hlt)
    simp only [LineTable.locate, extend, Array.getElem?_eq_getElem hlt, Option.getD_some, hpage]
    rfl
  · intro key hkey
    cases hkey
    rw [hbuffer]
    exact hcounts

end LineTable

/-! ## Problems -/

/-- The place a problem of this text is reported at. -/
def Problem.place (t : Text) (p : Problem) : Place :=
  match p.span? with
  | some span => LineTable.placeAt t (min span.start t.size)
  | none => ⟨0, 0⟩

/-- The mark a problem of this text leaves. -/
def Problem.mark (t : Text) (p : Problem) : Mark :=
  ⟨p.verdict, p.place t⟩

/-- A problem is placed where the text has it if the table is right about the text. -/
theorem Reporter.locate_eq {texts : Nat → Text} {lines : LineTable} {buffer : Buffer}
    (h : lines.Sound texts) (hbuffer : texts buffer.key = buffer.text) (p : Problem) :
    (locate lines buffer p).1 = p.place buffer.text ∧ (locate lines buffer p).2.Sound texts := by
  unfold locate Problem.place
  cases p.span? with
  | none => exact ⟨rfl, h⟩
  | some span => exact h.locate hbuffer _

end Scorebook
