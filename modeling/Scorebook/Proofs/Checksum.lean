import Mathlib.Logic.ExistsUnique
import Scorebook.Movetext.Token
import Scorebook.Proofs.Scanning

/-!
# What the checksum notices

A step of the checksum forgets nothing. The multiplier is odd, so it has an inverse among the words,
and exclusive or can be undone: the word behind a step tells the word in front of it if the byte is
known, and the byte if the word is. Two strings that part in one byte and agree behind it therefore
have different checksums, however long they go on. Nothing of the kind holds of two bytes.
-/

namespace Scorebook

namespace Checksum

variable {v w : UInt64} {a b : UInt8} {as bs : List UInt8}

/-- What `factor` is undone by. -/
def inverse : UInt64 := 0xce965057aff6957b

/-- The factor is odd, so it can be divided by. -/
theorem factor_mul_inverse : factor * inverse = 1 := by decide

/-- Multiplying by the factor loses nothing. -/
theorem mul_factor_cancel (h : v * factor = w * factor) : v = w :=
  calc
    v = v * factor * inverse := by rw [UInt64.mul_assoc, factor_mul_inverse, UInt64.mul_one]
    _ = w * factor * inverse := by rw [h]
    _ = w := by rw [UInt64.mul_assoc, factor_mul_inverse, UInt64.mul_one]

/-- The word in front of a step. -/
theorem absorb_left_cancel (h : absorb v b = absorb w b) : v = w :=
  (UInt64.xor_left_inj b.toUInt64).1 (mul_factor_cancel h)

/-- The byte of a step. -/
theorem absorb_right_cancel (h : absorb w a = absorb w b) : a = b :=
  UInt8.toUInt64_inj.1 ((UInt64.xor_right_inj w).1 (mul_factor_cancel h))

/-- The word in front of any number of steps. -/
theorem foldl_absorb_cancel (bytes : List UInt8)
    (h : bytes.foldl absorb v = bytes.foldl absorb w) : v = w := by
  induction bytes generalizing v w with
  | nil => exact h
  | cons b rest ih => exact absorb_left_cancel (ih h)

/-- A byte in the midst of a string shows in the checksum of all of it. -/
theorem ofBytes_ne (front rest : List UInt8) (h : a ≠ b) :
    ofBytes (front ++ a :: rest) ≠ ofBytes (front ++ b :: rest) := by
  intro heq
  simp only [ofBytes, List.foldl_append, List.foldl_cons] at heq
  exact h (absorb_right_cancel (foldl_absorb_cancel rest heq))

/-- Two strings of one length that differ in one place, cut there. -/
theorem exists_split_of_existsUnique (hlength : as.length = bs.length)
    (h : ∃! i : Nat, as[i]? ≠ bs[i]?) :
    ∃ front a b rest, as = front ++ a :: rest ∧ bs = front ++ b :: rest ∧ a ≠ b := by
  obtain ⟨i, hdiffer, honly⟩ := h
  have hagree (j : Nat) (hj : j ≠ i) : as[j]? = bs[j]? :=
    Decidable.byContradiction fun hne => hj (honly j hne)
  have hlt : i < as.length := by
    rcases Nat.lt_or_ge i as.length with hlt | hge
    · exact hlt
    · rw [List.getElem?_eq_none hge, List.getElem?_eq_none (hlength ▸ hge)] at hdiffer
      exact absurd rfl hdiffer
  have hlt' : i < bs.length := hlength ▸ hlt
  have hfront : as.take i = bs.take i := by
    apply List.ext_getElem?
    intro j
    rw [List.getElem?_take, List.getElem?_take]
    split
    · exact hagree j (by omega)
    · rfl
  have hrest : as.drop (i + 1) = bs.drop (i + 1) := by
    apply List.ext_getElem?
    intro j
    rw [List.getElem?_drop, List.getElem?_drop]
    exact hagree _ (by omega)
  refine ⟨as.take i, as[i], bs[i], as.drop (i + 1), ?_, ?_, ?_⟩
  · rw [← List.drop_eq_getElem_cons hlt, List.take_append_drop]
  · rw [hfront, hrest, ← List.drop_eq_getElem_cons hlt', List.take_append_drop]
  · intro heq
    rw [List.getElem?_eq_getElem hlt, List.getElem?_eq_getElem hlt', heq] at hdiffer
    exact hdiffer rfl

/-- One changed byte changes the checksum. -/
theorem ofBytes_ne_of_existsUnique (hlength : as.length = bs.length)
    (h : ∃! i : Nat, as[i]? ≠ bs[i]?) : ofBytes as ≠ ofBytes bs := by
  obtain ⟨front, a, b, rest, rfl, rfl, hne⟩ := exists_split_of_existsUnique hlength h
  exact ofBytes_ne front rest hne

end Checksum

namespace Text

variable {t u : Text} {s : Span}

/-- The words of a range in two texts differ where the texts do. -/
theorem getElem?_word_ne_iff {i : Nat} :
    (t.word s)[i]? ≠ (u.word s)[i]? ↔
      s.start ≤ s.start + i ∧ s.start + i < s.stop ∧ t[s.start + i]? ≠ u[s.start + i]? := by
  rw [getElem?_word, getElem?_word]
  by_cases hin : s.start + i < s.stop
  · simp [hin]
  · simp [hin]

/-- Two texts that differ in one byte of a range have different checksums of it. -/
theorem checksum_ne (hsize : t.size = u.size)
    (h : ∃! i, s.start ≤ i ∧ i < s.stop ∧ t[i]? ≠ u[i]?) : t.checksum s ≠ u.checksum s := by
  apply Checksum.ofBytes_ne_of_existsUnique
  · rw [length_word, length_word, hsize]
  · obtain ⟨i, hdiffer, honly⟩ := h
    refine ⟨i - s.start, ?_, ?_⟩
    · show (t.word s)[i - s.start]? ≠ (u.word s)[i - s.start]?
      rw [getElem?_word_ne_iff, Nat.add_sub_cancel' hdiffer.1]
      exact hdiffer
    · intro j hj
      have := honly (s.start + j) (getElem?_word_ne_iff.1 hj)
      omega

end Text

end Scorebook
