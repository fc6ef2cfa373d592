import Scorebook.Byte

/-!
# Text and places in it

A database is one string of bytes, and everything found in it is a half-open range of offsets.
`Text` is such a string seen up to a limit: a scanner that may only look at the first half of a
database is given `t.upTo n`, which shares the bytes and answers "no byte there" past `n`. All
scanners read bytes through `t[i]?` and find their way with one search, `Text.seek`, whose laws are
collected here: the result lies between the start and the end, nothing before it matches, and it
matches unless it is the end.
-/

namespace Scorebook

/-- A half-open range of byte offsets. -/
structure Span where
  start : Nat
  stop : Nat
deriving DecidableEq, Repr, Inhabited, Hashable

/-- Bytes seen up to `size`. -/
structure Text where
  bytes : ByteArray
  size : Nat
  size_le : size ≤ bytes.size

namespace Text

/-- All of a byte string. -/
def ofBytes (bytes : ByteArray) : Text :=
  ⟨bytes, bytes.size, Nat.le_refl _⟩

/-- The same bytes with nothing visible from `n` on. -/
def upTo (t : Text) (n : Nat) : Text :=
  ⟨t.bytes, min n t.size, Nat.le_trans (Nat.min_le_right n t.size) t.size_le⟩

instance : GetElem Text Nat UInt8 fun t i => i < t.size where
  getElem t i h := t.bytes.get i (Nat.lt_of_lt_of_le h t.size_le)

instance : GetElem? Text Nat UInt8 fun t i => i < t.size where
  getElem? t i := if h : i < t.size then some t[i] else none

instance : LawfulGetElem Text Nat UInt8 fun t i => i < t.size where
  getElem?_def t i _ := by
    by_cases h : i < t.size
    · rw [dif_pos h]; exact dif_pos h
    · rw [dif_neg h]; exact dif_neg h

@[simp] theorem size_ofBytes (b : ByteArray) : (ofBytes b).size = b.size := rfl

/-- A text that is cut off has the bytes in front of the cut. -/
@[simp] theorem size_upTo (t : Text) (n : Nat) : (t.upTo n).size = min n t.size := rfl

/-- A byte can be read exactly in the text. -/
theorem getElem?_eq_some_iff {t : Text} {i : Nat} {b : UInt8} :
    t[i]? = some b ↔ ∃ h : i < t.size, t[i] = b := by
  show (if h : i < t.size then some t[i] else none) = some b ↔ _
  split
  · simp_all
  · exact ⟨nofun, fun ⟨h, _⟩ => absurd h ‹_›⟩

/-- A byte that can be read is in the text. -/
theorem lt_size_of_getElem? {t : Text} {i : Nat} {b : UInt8} (h : t[i]? = some b) : i < t.size :=
  (getElem?_eq_some_iff.1 h).1

/-- Nothing can be read behind the text. -/
theorem getElem?_eq_none_iff {t : Text} {i : Nat} : t[i]? = none ↔ t.size ≤ i := by
  show (if h : i < t.size then some t[i] else none) = none ↔ _
  split <;> simp_all

/-- A limit hides the bytes from it on and no others. -/
theorem getElem?_upTo (t : Text) (n i : Nat) :
    (t.upTo n)[i]? = if i < n then t[i]? else none := by
  show (if h : i < min n t.size then some _ else none) =
    if i < n then (if h : i < t.size then some _ else none) else none
  have hlt : i < min n t.size ↔ i < n ∧ i < t.size := by omega
  by_cases h₁ : i < n <;> by_cases h₂ : i < t.size <;> simp [hlt, h₁, h₂]
  rfl

/-! ## Searching forward -/

/-- The first offset from `pos` on whose byte satisfies `p`, or the end of the text. -/
def seek (t : Text) (p : UInt8 → Bool) (pos : Nat) : Nat :=
  if h : pos < t.size then
    if p t[pos] then pos else t.seek p (pos + 1)
  else t.size
termination_by t.size - pos

/-- What is sought is found in the text, or else the end of the text is. -/
theorem seek_le_size (t : Text) (p : UInt8 → Bool) (pos : Nat) : t.seek p pos ≤ t.size := by
  fun_induction seek t p pos <;> omega

/-- Seeking never goes back. -/
theorem le_seek {t : Text} {p : UInt8 → Bool} {pos : Nat} (h : pos ≤ t.size) :
    pos ≤ t.seek p pos := by
  fun_induction seek t p pos <;> omega

/-- Nothing between the start of a search and its result matches. -/
theorem not_of_lt_seek {t : Text} {p : UInt8 → Bool} {pos i : Nat} (hi : pos ≤ i)
    (hlt : i < t.seek p pos) {b : UInt8} (hb : t[i]? = some b) : p b = false := by
  fun_induction seek t p pos with
  | case1 => omega
  | case2 pos h hp ih =>
    rcases Nat.eq_or_lt_of_le hi with rfl | hi
    · obtain ⟨_, rfl⟩ := getElem?_eq_some_iff.1 hb
      simpa using hp
    · exact ih hi hlt
  | case3 pos h => exact absurd (lt_size_of_getElem? hb) (by omega)

/-- The result of a search matches, or is the end of the text. -/
theorem seek_eq_size_or (t : Text) (p : UInt8 → Bool) (pos : Nat) :
    t.seek p pos = t.size ∨ ∃ b, t[t.seek p pos]? = some b ∧ p b = true := by
  fun_induction seek t p pos with
  | case1 pos h hp => exact .inr ⟨_, getElem?_eq_some_iff.2 ⟨h, rfl⟩, hp⟩
  | case2 pos h hp ih => exact ih
  | case3 => exact .inl rfl

/-- Seeking moves on from a byte that is not sought. -/
theorem lt_seek {t : Text} {p : UInt8 → Bool} {pos : Nat} {b : UInt8} (hb : t[pos]? = some b)
    (hp : p b = false) : pos < t.seek p pos := by
  obtain ⟨h, rfl⟩ := getElem?_eq_some_iff.1 hb
  rw [seek, dif_pos h, if_neg (by simp [hp])]
  exact Nat.lt_of_lt_of_le (Nat.lt_succ_self pos) (le_seek h)

/-! ## Lines and ranges -/

/-- The offset of the line feed that ends the line holding `pos`, or the end of the text. -/
def lineEnd (t : Text) (pos : Nat) : Nat :=
  t.seek (· == Byte.newline) pos

/-- A line ends in the text. -/
theorem lineEnd_le_size (t : Text) (pos : Nat) : t.lineEnd pos ≤ t.size :=
  seek_le_size ..

theorem le_lineEnd {t : Text} {pos : Nat} (h : pos ≤ t.size) : pos ≤ t.lineEnd pos :=
  le_seek h

/-- A line does not end at a byte that is no line feed. -/
theorem lt_lineEnd {t : Text} {pos : Nat} {b : UInt8} (hb : t[pos]? = some b)
    (hne : b ≠ Byte.newline) : pos < t.lineEnd pos :=
  lt_seek hb (by simpa using hne)

/-- Does `pos` begin a line? A carriage return ends a line here as well as a line feed. -/
def atLineStart (t : Text) : Nat → Bool
  | 0 => true
  | pos + 1 => t[pos]?.any Byte.isLineBreak

/-- The offset just after the last line feed before `pos`, or the start of the text. -/
def lineStart (t : Text) : Nat → Nat
  | 0 => 0
  | pos + 1 => if t[pos]?.any (· == Byte.newline) then pos + 1 else t.lineStart pos

/-- A line starts at or in front of each of its offsets. -/
theorem lineStart_le (t : Text) (pos : Nat) : t.lineStart pos ≤ pos := by
  induction pos with
  | zero => exact Nat.le_refl _
  | succ pos ih => rw [lineStart]; split <;> omega

/-- The bytes of a range, as far as they are visible. -/
def slice (t : Text) (s : Span) : ByteArray :=
  t.bytes.extract s.start (min s.stop t.size)

/-- The bytes of a range as a list, for the small grammars that read whole words. -/
def word (t : Text) (s : Span) : List UInt8 :=
  (t.slice s).data.toList

/-- The bytes of a span, as far as the text reaches. -/
theorem length_word (t : Text) (s : Span) : (t.word s).length = min s.stop t.size - s.start := by
  have := t.size_le
  rw [word, Array.length_toList, slice]
  change (t.bytes.extract s.start (min s.stop t.size)).size = _
  rw [ByteArray.size_extract]
  omega

/-- Do these bytes stand at `pos`? -/
def holdsAt (t : Text) (pos : Nat) : List UInt8 → Bool
  | [] => true
  | b :: rest => t[pos]? == some b && t.holdsAt (pos + 1) rest

end Text

end Scorebook
