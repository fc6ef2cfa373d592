import Scorebook.Proofs.Text.Guarded

/-!
# Many queries of one line table

One table serves all queries, about whatever buffer and in whatever order; what it has counted for
one of them it keeps for the next, and what it has counted for another buffer it drops. As long as
the keys of the buffers tell their texts apart, each answer is the one that plain counting gives,
so no query can be told from the answers to the others.
-/

namespace Scorebook

/-- Buffers of different texts have different keys. -/
def ToldApart (buffers : List Buffer) : Prop :=
  ∀ a ∈ buffers, ∀ b ∈ buffers, a.key = b.key → a.text = b.text

/-- Two buffers with different keys are told apart. -/
theorem ToldApart.pair (a b : Buffer) (hkey : a.key ≠ b.key) {buffers : List Buffer}
    (h : ∀ c ∈ buffers, c = a ∨ c = b) : ToldApart buffers := by
  intro c hc d hd heq
  rcases h c hc with rfl | rfl <;> rcases h d hd with rfl | rfl
  · rfl
  · exact absurd heq hkey
  · exact absurd heq.symm hkey
  · rfl

/-- The text with this key, if one of the buffers has it. -/
def textWithKey (buffers : List Buffer) (key : Nat) : Text :=
  ((buffers.find? (·.key == key)).map Buffer.text).getD (.ofBytes .empty)

/-- Among buffers that are told apart a key stands for one text. -/
theorem ToldApart.textWithKey_eq {buffers : List Buffer} (h : ToldApart buffers) {b : Buffer}
    (hb : b ∈ buffers) : textWithKey buffers b.key = b.text := by
  rw [textWithKey]
  cases hfind : buffers.find? (·.key == b.key) with
  | none => exact absurd (List.find?_eq_none.1 hfind b hb) (by simp)
  | some a =>
    exact h a (List.mem_of_find?_eq_some hfind) b hb (by simpa using List.find?_some hfind)

/-- One question for a line and a column. -/
structure Query where
  buffer : Buffer
  offset : Nat

/-- The offset is one of the text, its end included. -/
def Query.InRange (q : Query) : Prop :=
  q.offset ≤ q.buffer.text.size

/-- The line and the column by plain counting. -/
def Query.count (q : Query) : Nat × Nat :=
  (q.buffer.text.lineOf q.offset, q.buffer.text.columnOf q.offset)

namespace LineTable

/-- The answers to queries that are asked one after the other, and the table that is left. -/
def locateAll (table : LineTable) : List Query → List Place × LineTable
  | [] => ([], table)
  | q :: rest =>
    let (place, table) := table.locate q.buffer q.offset
    let (places, table) := table.locateAll rest
    (place :: places, table)

/-- As `locateAll`, with every step guarded. -/
def guardedAll (table : LineTable) : List Query → Option (List Place × LineTable)
  | [] => some ([], table)
  | q :: rest => do
    let (place, table) ← table.guardedLocate q.buffer q.offset
    let (places, table) ← table.guardedAll rest
    some (place :: places, table)

variable {texts : Nat → Text} {table : LineTable} {queries : List Query}

/-- Any queries about texts with short enough lines are answered without a check failing. -/
theorem guardedAll_eq (table : LineTable) (h : ∀ q ∈ queries, q.InRange)
    (hfit : ∀ q ∈ queries, q.buffer.text.LinesFit) :
    table.guardedAll queries = some (table.locateAll queries) := by
  induction queries generalizing table with
  | nil => rfl
  | cons q rest ih =>
    have hrange := h q List.mem_cons_self
    have hcolumn := (hfit q List.mem_cons_self).columnOf_lt hrange
    rw [guardedAll, table.guardedLocate_eq hrange (Nat.ne_of_lt hcolumn)]
    simp only [Option.bind_eq_bind, Option.bind_some]
    rw [ih _ (fun q hq => h q (List.mem_cons_of_mem _ hq))
      (fun q hq => hfit q (List.mem_cons_of_mem _ hq))]
    rfl

/-- A sound table answers each query as any other table would, and is sound afterwards. -/
theorem Sound.locateAll (h : table.Sound texts)
    (htexts : ∀ q ∈ queries, texts q.buffer.key = q.buffer.text) :
    (table.locateAll queries).1 = queries.map (fun q => placeAt q.buffer.text q.offset) ∧
      (table.locateAll queries).2.Sound texts := by
  induction queries generalizing table with
  | nil => exact ⟨rfl, h⟩
  | cons q rest ih =>
    obtain ⟨hplace, hsound⟩ := h.locate (htexts q List.mem_cons_self) q.offset
    obtain ⟨hplaces, hrest⟩ := ih hsound fun q hq => htexts q (List.mem_cons_of_mem _ hq)
    refine ⟨?_, hrest⟩
    rw [List.map_cons, ← hplace, ← hplaces]
    rfl

/-- Every sequence of queries about offsets in range is answered by plain counting, however the
buffers take turns, as long as their keys tell them apart and their lines are not too long. No guard
fails on the way: every page is cut out of the text it is counted for, every entry of the table that
is asked for is there, and no count of a block leaves its signed byte. -/
theorem asked_as_counted (hkeys : ToldApart (queries.map Query.buffer))
    (hoffsets : ∀ q ∈ queries, q.InRange) (hfit : ∀ q ∈ queries, q.buffer.text.LinesFit) :
    ∃ places table, empty.guardedAll queries = some (places, table) ∧
      empty.locateAll queries = (places, table) ∧
      places.map (fun p => (p.line, p.column.toNat)) = queries.map Query.count := by
  refine ⟨_, _, guardedAll_eq empty hoffsets hfit, rfl, ?_⟩
  have htexts : ∀ q ∈ queries,
      textWithKey (queries.map Query.buffer) q.buffer.key = q.buffer.text :=
    fun q hq => hkeys.textWithKey_eq (List.mem_map_of_mem hq)
  rw [((Sound.empty _).locateAll htexts).1, List.map_map]
  refine List.map_congr_left fun q hq => ?_
  exact Prod.ext (placeAt_line ..) (placeAt_column (hfit q hq) (hoffsets q hq))

/-- Three hundred empty lines. -/
def emptyLines : Buffer :=
  ⟨0, .ofBytes (List.replicate 300 Byte.newline).toByteArray⟩

/-- Where all lines are empty each offset is the start of one. -/
theorem count_emptyLines (offset : Nat) :
    Query.count ⟨emptyLines, offset⟩ = (min offset 300 + 1, 1) := by
  have hnone :
      (List.replicate (min offset 300) Byte.newline).takeWhile (· != Byte.newline) = [] := by
    rw [List.takeWhile_replicate]
    rfl
  simp only [Query.count, Text.lineOf, Text.columnOf, emptyLines, Text.word_ofBytes,
    List.take_replicate, List.reverse_replicate, List.count_replicate_self, hnone, List.length_nil]

/-- One line of two letters. -/
def oneLine : Buffer :=
  ⟨1, .ofBytes [0x61, 0x62].toByteArray⟩

/-- Queries that go past the first page, to another buffer and back again. -/
def turns : List Query :=
  [⟨emptyLines, 299⟩, ⟨oneLine, 1⟩, ⟨emptyLines, 10⟩, ⟨emptyLines, 300⟩]

theorem asked_as_counted_of_turns :
    ToldApart (turns.map Query.buffer) ∧ (∀ q ∈ turns, q.InRange) ∧
      (∀ q ∈ turns, q.buffer.text.LinesFit) ∧
      ∃ places table, empty.guardedAll turns = some (places, table) ∧
        places.map (fun p => (p.line, p.column.toNat)) = [(300, 1), (1, 2), (11, 1), (301, 1)] := by
  have hkeys : ToldApart (turns.map Query.buffer) :=
    .pair emptyLines oneLine Nat.zero_ne_one (by simp [turns])
  have hoffsets : ∀ q ∈ turns, q.InRange := by
    simp only [Query.InRange]
    decide +kernel
  have hfit : ∀ q ∈ turns, q.buffer.text.LinesFit := by
    have hsize : ∀ q ∈ turns, q.buffer.text.size < 0xffffffff := by decide +kernel
    exact fun q hq => .of_size_lt (hsize q hq)
  obtain ⟨places, table, hguarded, -, hplaces⟩ := asked_as_counted hkeys hoffsets hfit
  refine ⟨hkeys, hoffsets, hfit, places, table, hguarded, hplaces.trans ?_⟩
  simp only [turns, List.map_cons, List.map_nil, count_emptyLines]
  decide +kernel

end LineTable

end Scorebook
