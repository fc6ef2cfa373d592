import Scorebook.Catalogue

/-!
# Laws of the scanners

What the small scanners do, said without their recursion: where a search stops, which bytes a gap
starts with and where it ends, and that stepping over a gap twice is stepping over it once.
-/

namespace Scorebook.Text

variable {t : Text} {pos mid stop q : Nat} {b : UInt8} {p : UInt8 → Bool}

/-! ## Searches -/

/-- A search stops at the first byte that matches. -/
theorem seek_eq (hle : pos ≤ q) (hq : t[q]? = some b) (hb : p b = true)
    (hbefore : ∀ i c, pos ≤ i → i < q → t[i]? = some c → p c = false) : t.seek p pos = q := by
  have hqsize := lt_size_of_getElem? hq
  have hlow : pos ≤ t.seek p pos := le_seek (by omega)
  rcases Nat.lt_trichotomy (t.seek p pos) q with hlt | heq | hgt
  · rcases seek_eq_size_or t p pos with hsize | ⟨c, hc, hpc⟩
    · omega
    · rw [hbefore _ c hlow hlt hc] at hpc
      cases hpc
  · exact heq
  · rw [not_of_lt_seek hle hgt hq] at hb
    cases hb

/-- A byte that is sought is found where it is. -/
theorem seek_of_match (hq : t[pos]? = some b) (hb : p b = true) : t.seek p pos = pos :=
  seek_eq (Nat.le_refl pos) hq hb fun _ _ hle hlt => by omega

/-- Any other byte is stepped over. -/
theorem seek_of_not_match (hb : t[pos]? = some b) (hp : p b = false) :
    t.seek p pos = t.seek p (pos + 1) := by
  obtain ⟨hlt, rfl⟩ := getElem?_eq_some_iff.1 hb
  rw [seek, dif_pos hlt, if_neg (by simp [hp])]

/-- Behind the text nothing is found but its end. -/
theorem seek_of_size_le (h : t.size ≤ pos) : t.seek p pos = t.size := by
  rw [seek, dif_neg (by omega)]

/-- Seeking does not run past a byte that is sought. -/
theorem seek_le_of_match (hle : pos ≤ q) (hq : t[q]? = some b) (hb : p b = true) :
    t.seek p pos ≤ q := by
  rcases Nat.lt_or_ge q (t.seek p pos) with hlt | hge
  · rw [not_of_lt_seek hle hlt hq] at hb
    cases hb
  · exact hge

/-- A search that finds nothing ends with the text. -/
theorem seek_eq_size (hnone : ∀ i c, pos ≤ i → t[i]? = some c → p c = false) (hle : pos ≤ t.size) :
    t.seek p pos = t.size := by
  rcases seek_eq_size_or t p pos with hsize | ⟨c, hc, hpc⟩
  · exact hsize
  · rw [hnone _ c (le_seek hle) hc] at hpc
    cases hpc

/-- A view of all of a text. -/
theorem upTo_self (t : Text) : t.upTo t.size = t := by
  simp [upTo]

/-- A search for the end of blanks that fill the rest of the view ends with the view. -/
theorem seek_upTo_of_blanks {n : Nat} (hle : pos ≤ n) (hn : n ≤ t.size)
    (hblank : ∀ i, pos ≤ i → i < n → t[i]?.any Byte.isBlank = true) :
    (t.upTo n).seek (!Byte.isBlank ·) pos = n := by
  have hsize : (t.upTo n).size = n := Nat.min_eq_left hn
  rw [seek_eq_size _ (by omega), hsize]
  intro i c hi hc
  have hin := lt_size_of_getElem? hc
  rw [getElem?_upTo, if_pos (by omega)] at hc
  have hc' := hblank i hi (by omega)
  rw [hc, Option.any_some] at hc'
  rw [hc']
  rfl

/-- The byte a search found, if it found one. -/
theorem match_of_seek_lt (h : t.seek p pos < t.size) :
    ∃ c, t[t.seek p pos]? = some c ∧ p c = true :=
  (seek_eq_size_or t p pos).resolve_left (by omega)

/-- A line ends at a line feed, or with the text. -/
theorem getElem?_lineEnd (h : t.lineEnd pos < t.size) :
    t[t.lineEnd pos]? = some Byte.newline := by
  obtain ⟨c, hc, hfeed⟩ := match_of_seek_lt h
  rw [beq_iff_eq.1 hfeed] at hc
  exact hc

/-- One step of the search for the next bracket in the first column. -/
theorem resync_of_getElem? (hb : t[pos + 1]? = some b) :
    t.resync pos =
      if b == Byte.openBracket && t.atLineStart (pos + 1) then pos + 1 else t.resync (pos + 1) := by
  obtain ⟨hlt, rfl⟩ := getElem?_eq_some_iff.1 hb
  rw [resync, dif_pos hlt]

/-- At the end of the text there is no next game to look for. -/
theorem resync_of_size_le (h : t.size ≤ pos + 1) : t.resync pos = t.size := by
  rw [resync, dif_neg (by omega)]

/-! ## Words in place -/

theorem exists_getElem? (h : pos < t.size) : ∃ b, t[pos]? = some b :=
  ⟨_, getElem?_eq_some_iff.2 ⟨h, rfl⟩⟩

theorem getElem?_of_eq {i j : Nat} (h : i = j) (hb : t[i]? = some b) : t[j]? = some b :=
  h ▸ hb

/-- The bytes of a text are those it was made of. -/
theorem getElem?_ofBytes (bytes : List UInt8) (i : Nat) :
    (ofBytes bytes.toByteArray)[i]? = bytes[i]? := by
  cases hb : bytes[i]? with
  | none =>
    rw [getElem?_eq_none_iff, size_ofBytes, List.size_toByteArray]
    exact List.getElem?_eq_none_iff.1 hb
  | some b =>
    obtain ⟨hlt, rfl⟩ := List.getElem?_eq_some_iff.1 hb
    have hsize : i < bytes.toByteArray.size := by rwa [List.size_toByteArray]
    refine getElem?_eq_some_iff.2 ⟨hsize, ?_⟩
    exact List.getElem_toByteArray (h := hsize)

/-- A text holds bytes in a place if it has each of them where it should be. -/
theorem holdsAt_iff {bytes : List UInt8} :
    t.holdsAt pos bytes = true ↔ ∀ i c, bytes[i]? = some c → t[pos + i]? = some c := by
  induction bytes generalizing pos with
  | nil => simp [holdsAt]
  | cons first rest ih =>
    rw [holdsAt, Bool.and_eq_true, beq_iff_eq, ih]
    constructor
    · rintro ⟨hfirst, hrest⟩ i c hc
      cases i with
      | zero =>
        cases hc
        exact hfirst
      | succ i =>
        rw [Nat.add_comm i 1, ← Nat.add_assoc]
        exact hrest i c hc
    · intro h
      refine ⟨h 0 first rfl, ?_⟩
      intro i c hc
      rw [Nat.add_assoc, Nat.add_comm 1 i]
      exact h (i + 1) c hc

/-- Bytes stand in a place if their first part does and the rest behind it. -/
theorem holdsAt_append {first rest : List UInt8} :
    t.holdsAt pos (first ++ rest) =
      (t.holdsAt pos first && t.holdsAt (pos + first.length) rest) := by
  induction first generalizing pos with
  | nil => rfl
  | cons b first ih =>
    rw [List.cons_append, holdsAt, holdsAt, ih, List.length_cons, Bool.and_assoc,
      Nat.add_assoc, Nat.add_comm 1]

/-- Where bytes stand there are no others. -/
theorem mem_of_holdsAt {bytes : List UInt8} {i : Nat} (h : t.holdsAt pos bytes = true)
    (hi : pos ≤ i) (hlt : i < pos + bytes.length) (hb : t[i]? = some b) : b ∈ bytes := by
  have hget := List.getElem?_eq_getElem (show i - pos < bytes.length by omega)
  have hheld := holdsAt_iff.1 h (i - pos) _ hget
  rw [show pos + (i - pos) = i by omega, hb] at hheld
  exact List.mem_of_getElem? (hget.trans hheld.symm)

/-- A search through a word none of whose bytes match ends behind it, where a byte does match. -/
theorem seek_of_holdsAt {bytes : List UInt8} (h : t.holdsAt pos bytes = true)
    (hnone : ∀ c ∈ bytes, p c = false) (hb : t[pos + bytes.length]? = some b) (hp : p b = true) :
    t.seek p pos = pos + bytes.length :=
  seek_eq (Nat.le_add_right ..) hb hp fun _ c hi hlt hc => hnone c (mem_of_holdsAt h hi hlt hc)

/-- A text made of bytes begins with all of them. -/
theorem holdsAt_ofBytes (bytes : List UInt8) :
    (ofBytes bytes.toByteArray).holdsAt 0 bytes = true := by
  rw [holdsAt_iff]
  intro i c hc
  rw [Nat.zero_add, getElem?_ofBytes, hc]

/-- A text reads its bytes as far as it reaches. -/
theorem getElem?_eq_data (t : Text) (i : Nat) :
    t[i]? = if i < t.size then t.bytes.data[i]? else none := by
  by_cases h : i < t.size
  · have hlt : i < t.bytes.data.size := Nat.lt_of_lt_of_le h t.size_le
    rw [if_pos h, Array.getElem?_eq_getElem hlt]
    exact getElem?_eq_some_iff.2 ⟨h, rfl⟩
  · rw [if_neg h]
    exact getElem?_eq_none_iff.2 (Nat.not_lt.1 h)

/-- A text made of bytes reads all of them. -/
theorem getElem?_ofBytes_eq_data (bytes : ByteArray) (i : Nat) :
    (ofBytes bytes)[i]? = bytes.data[i]? := by
  rw [getElem?_eq_data]
  split
  · rfl
  · next hge => exact (Array.getElem?_eq_none (Nat.not_lt.1 hge)).symm

/-- The bytes of two texts joined. -/
theorem getElem?_ofBytes_append (a b : ByteArray) (i : Nat) :
    (ofBytes (a ++ b))[i]? =
      if i < a.size then (ofBytes a)[i]? else (ofBytes b)[i - a.size]? := by
  rw [getElem?_ofBytes_eq_data, getElem?_ofBytes_eq_data, getElem?_ofBytes_eq_data,
    ByteArray.data_append, Array.getElem?_append]
  rfl

/-- The bytes of a span are those of the text, counted from its start. -/
theorem getElem?_word (t : Text) (s : Span) (i : Nat) :
    (t.word s)[i]? = if s.start + i < s.stop then t[s.start + i]? else none := by
  have hsize : t.size ≤ t.bytes.data.size := t.size_le
  rw [word, slice, Array.getElem?_toList, ByteArray.data_extract, Array.getElem?_extract,
    getElem?_eq_data]
  by_cases hin : s.start + i < s.stop
  · by_cases hlt : s.start + i < t.size
    · rw [if_pos hin, if_pos hlt, if_pos (by omega)]
    · rw [if_pos hin, if_neg hlt, if_neg (by omega)]
  · rw [if_neg hin, if_neg (by omega)]

/-- A range as bytes and as a list of bytes. -/
theorem slice_eq_word (t : Text) (s : Span) : t.slice s = (t.word s).toByteArray :=
  ByteArray.ext (by rw [List.data_toByteArray, word, Array.toArray_toList])

/-- A span that ends where it starts has no bytes. -/
theorem word_of_le (h : stop ≤ pos) (t : Text) : t.word ⟨pos, stop⟩ = [] := by
  rw [← List.length_eq_zero_iff, length_word]
  simp only
  omega

/-- The bytes of a span are those up to any offset in it and those behind. -/
theorem word_append (hpos : pos ≤ mid) (hmid : mid ≤ stop) (hsize : mid ≤ t.size) :
    t.word ⟨pos, mid⟩ ++ t.word ⟨mid, stop⟩ = t.word ⟨pos, stop⟩ := by
  apply List.ext_getElem?
  intro i
  have hlength : (t.word ⟨pos, mid⟩).length = mid - pos := by
    rw [length_word]
    simp only
    omega
  rw [List.getElem?_append, hlength]
  simp only [getElem?_word]
  split
  · rw [if_pos (by omega), if_pos (by omega)]
  · rw [show mid + (i - (mid - pos)) = pos + i by omega]

/-- A span one byte longer has that byte at its end. -/
theorem word_succ (hb : t[q]? = some b) (hle : pos ≤ q) :
    t.word ⟨pos, q + 1⟩ = t.word ⟨pos, q⟩ ++ [b] := by
  rw [← word_append hle (Nat.le_succ q) (Nat.le_of_lt (lt_size_of_getElem? hb))]
  congr 1
  apply List.ext_getElem?
  intro i
  rw [getElem?_word]
  cases i with
  | zero => simp [hb]
  | succ i => rw [if_neg (by simp only; omega)]; rfl

/-- A span that is not empty has the byte it starts with, and the rest. -/
theorem word_cons (hb : t[pos]? = some b) (hlt : pos < stop) :
    t.word ⟨pos, stop⟩ = b :: t.word ⟨pos + 1, stop⟩ := by
  rw [← word_append (Nat.le_succ pos) hlt (lt_size_of_getElem? hb), word_succ hb (Nat.le_refl pos),
    word_of_le (Nat.le_refl pos)]
  rfl

/-- The first bytes of a text that is given as a list. -/
theorem word_ofBytes (bytes : List UInt8) (n : Nat) :
    (ofBytes bytes.toByteArray).word ⟨0, n⟩ = bytes.take n := by
  apply List.ext_getElem?
  intro i
  rw [getElem?_word, getElem?_ofBytes, List.getElem?_take, Nat.zero_add]

/-- What is read from a range where some bytes stand is those bytes. -/
theorem word_of_holdsAt {bytes : List UInt8} (h : t.holdsAt pos bytes = true) :
    t.word ⟨pos, pos + bytes.length⟩ = bytes := by
  apply List.ext_getElem?
  intro i
  rw [getElem?_word]
  cases hb : bytes[i]? with
  | none =>
    have hle := List.getElem?_eq_none_iff.1 hb
    rw [if_neg (by simp only; omega)]
  | some b =>
    obtain ⟨hlt, -⟩ := List.getElem?_eq_some_iff.1 hb
    rw [if_pos (by simp only; omega)]
    exact holdsAt_iff.1 h i b hb

/-! ## Where gaps start and end -/

/-- Does a gap go on at `pos`? -/
def inGap (t : Text) (pos : Nat) : Bool :=
  t[pos]?.any fun b =>
    Byte.isBlank b || b == Byte.percent && t.atLineStart pos || b == Byte.semicolon ||
      b == Byte.openBrace

/-- Whether there is a gap is told by one byte and by whether a line starts at it. -/
theorem inGap_of_getElem? (h : t[pos]? = some b) :
    t.inGap pos = (Byte.isBlank b || b == Byte.percent && t.atLineStart pos ||
      b == Byte.semicolon || b == Byte.openBrace) := by
  simp [inGap, h]

/-- Behind the text there is no gap. -/
theorem inGap_of_size_le (h : t.size ≤ pos) : t.inGap pos = false := by
  simp [inGap, getElem?_eq_none_iff.2 h]

/-- No gap goes on where a bracket stands. -/
theorem inGap_of_openBracket (h : t[pos]? = some Byte.openBracket) : t.inGap pos = false := by
  rw [inGap_of_getElem? h]
  rfl

/-- Where there is no gap it ends at once. -/
theorem gapFrom_of_not_inGap (h : t.inGap pos = false) (comments : Array Span) :
    t.gapFrom pos comments = ⟨pos, comments, none⟩ := by
  rw [gapFrom]
  split
  · rfl
  · next c hc =>
    rw [inGap_of_getElem? hc] at h
    simp_all

/-- A gap stops at a byte that belongs to no gap, or at the end of the text. -/
theorem inGap_gapFrom_stop (t : Text) (pos : Nat) (comments : Array Span) :
    t.inGap (t.gapFrom pos comments).stop = false := by
  fun_induction gapFrom t pos comments with
  | case1 pos _ h => simp [inGap, h]
  | case2 _ _ _ _ _ ih => exact ih
  | case3 _ _ _ _ _ _ _ _ ih => exact ih
  | case5 _ _ _ _ _ _ ih => exact ih
  | case6 _ _ _ _ _ _ _ _ _ _ ih => exact ih
  | case4 | case7 => exact inGap_of_size_le (Nat.le_refl _)
  | case8 pos _ c h hblank hescape hcomment hbrace =>
    rw [inGap_of_getElem? h]
    simp_all

/-- Behind a gap there is none. -/
theorem inGap_gap_stop (t : Text) (pos : Nat) : t.inGap (t.gap pos).stop = false :=
  inGap_gapFrom_stop t pos #[]

theorem gap_of_not_inGap (h : t.inGap pos = false) : t.gap pos = ⟨pos, #[], none⟩ :=
  gapFrom_of_not_inGap h #[]

/-- A bracket is in no gap. -/
theorem gap_of_openBracket (h : t[pos]? = some Byte.openBracket) : t.gap pos = ⟨pos, #[], none⟩ :=
  gap_of_not_inGap (inGap_of_openBracket h)

/-- Stepping over a gap once more leads nowhere. -/
theorem gap_stop_gap_stop (t : Text) (pos : Nat) :
    (t.gap (t.gap pos).stop).stop = (t.gap pos).stop := by
  rw [gap_of_not_inGap (inGap_gap_stop t pos)]

/-- One step over a gap. -/
theorem gapFrom_of_getElem? (hb : t[pos]? = some b) (comments : Array Span) :
    t.gapFrom pos comments =
      if Byte.isBlank b then t.gapFrom (pos + 1) comments
      else if b == Byte.percent && t.atLineStart pos then
        if t.lineEnd pos < t.size then t.gapFrom (t.lineEnd pos + 1) comments
        else ⟨t.size, comments, some (.fault .unclosedEscape ⟨pos, t.size⟩)⟩
      else if b = Byte.semicolon then
        t.gapFrom (t.lineEnd pos) (comments.push ⟨pos + 1, t.lineEnd pos⟩)
      else if b == Byte.openBrace then
        if t.seek (· == Byte.closeBrace) pos < t.size then
          t.gapFrom (t.seek (· == Byte.closeBrace) pos + 1)
            (comments.push ⟨pos + 1, t.seek (· == Byte.closeBrace) pos⟩)
        else
          ⟨t.size, comments.push ⟨pos + 1, t.size⟩,
            some (.fault .unclosedComment ⟨pos, t.size⟩)⟩
      else ⟨pos, comments, none⟩ := by
  rw [gapFrom]
  split
  · next hnone => rw [hb] at hnone; cases hnone
  · next c hc =>
    obtain rfl : c = b := Option.some.inj (hc.symm.trans hb)
    rfl

/-- A gap goes on behind a blank. -/
theorem gapFrom_of_isBlank (h : t[pos]? = some b) (hb : Byte.isBlank b = true)
    (comments : Array Span) : t.gapFrom pos comments = t.gapFrom (pos + 1) comments := by
  rw [gapFrom_of_getElem? h, if_pos hb]

/-- Blanks in front of a gap change nothing about it. -/
theorem gap_of_blanks (hle : pos ≤ q)
    (hblank : ∀ i, pos ≤ i → i < q → t[i]?.any Byte.isBlank = true) : t.gap pos = t.gap q := by
  induction hle with
  | refl => rfl
  | @step q hle ih =>
    rw [ih fun i hi hlt => hblank i hi (by omega)]
    obtain ⟨c, hc, hcb⟩ := (Option.any_eq_true ..).1 (hblank q hle (Nat.lt_succ_self q))
    exact gapFrom_of_isBlank hc hcb #[]

/-- A gap with a problem takes up the rest of the text. -/
theorem gapFrom_stop_of_problem {comments : Array Span} {problem : Problem}
    (h : (t.gapFrom pos comments).problem? = some problem) :
    (t.gapFrom pos comments).stop = t.size := by
  fun_induction gapFrom t pos comments with
  | case1 | case8 => cases h
  | case2 _ _ _ _ _ ih => exact ih h
  | case3 _ _ _ _ _ _ _ _ ih => exact ih h
  | case5 _ _ _ _ _ _ ih => exact ih h
  | case6 _ _ _ _ _ _ _ _ _ _ ih => exact ih h
  | case4 | case7 => rfl

theorem gapInTag_of_not_inGap (h : t.inGap pos = false) : t.gapInTag pos = .ok pos := by
  rw [gapInTag_eq_ok_iff, gap_of_not_inGap h]
  exact ⟨rfl, rfl⟩

/-- A gap that ends inside the text has no problem. -/
theorem gap_problem?_of_stop_lt (h : (t.gap pos).stop < t.size) : (t.gap pos).problem? = none := by
  cases hproblem : (t.gap pos).problem? with
  | none => rfl
  | some problem =>
    rw [gap, gapFrom_stop_of_problem hproblem] at h
    omega

end Scorebook.Text
