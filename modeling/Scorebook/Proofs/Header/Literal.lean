import Scorebook.Proofs.Decoding
import Scorebook.Proofs.Header.Escapes

/-!
# Values that need no escapes

A value without its escapes may be put between quotes as it stands only if nothing in it is then
taken for an escape or for the closing quote. `IsLiteral` says which values these are: exactly those
that are read back from between the quotes (`Text.valueStop_of_isLiteral`,
`Text.isLiteral_of_read`). The second is about decoded values, and a value may be decoded from bytes
that are not UTF-8; but the bytes that matter are ASCII, and decoding keeps those in any encoding.
-/

namespace Scorebook

open ValuePiece

/-- There is no quote in the value, and no backslash stands at its end or in front of another. -/
def IsLiteral : List UInt8 → Bool
  | [] => true
  | b :: rest =>
    b != Byte.quote && (b != Byte.backslash || rest.head?.any (!Text.isEscapable ·)) &&
      IsLiteral rest

variable {b : UInt8} {value rest raw : List UInt8}

/-- A literal value has no quote and no backslash that would escape. -/
theorem isLiteral_cons : IsLiteral (b :: rest) = true ↔
    b ≠ Byte.quote ∧ (b = Byte.backslash → ∃ c, rest.head? = some c ∧ Text.isEscapable c = false) ∧
      IsLiteral rest = true := by
  rw [IsLiteral, Bool.and_eq_true, Bool.and_eq_true, bne_iff_ne, Bool.or_eq_true, bne_iff_ne,
    Option.any_eq_true, and_assoc, ← Decidable.imp_iff_not_or]
  simp only [Bool.not_eq_true']

/-! ## Removing escapes -/

/-- Is the piece a backslash and the byte it escapes? -/
def ValuePiece.isEscape : ValuePiece → Bool
  | plain _ => false
  | escaped _ => true

/-- Nothing in the value is taken for an escape. -/
theorem pieces_of_isLiteral (h : IsLiteral value = true) : pieces value = value.map plain := by
  induction value with
  | nil => rfl
  | cons b rest ih =>
    obtain ⟨-, hslash, hrest⟩ := isLiteral_cons.1 h
    rw [pieces_of_plain, ih hrest, List.map_cons]
    cases hb : b == Byte.backslash with
    | false => rfl
    | true =>
      obtain ⟨c, hc, hplain⟩ := hslash (beq_iff_eq.1 hb)
      rw [hc, Option.any_some, hplain]
      rfl

/-- Unescaping leaves a literal value as it is. -/
theorem unescape_of_isLiteral (h : IsLiteral value = true) : unescape value = value := by
  rw [← map_byte_pieces, pieces_of_isLiteral h, List.map_map]
  exact List.map_id value

/-- Unescaping adds no bytes. -/
theorem mem_of_mem_unescape (h : b ∈ unescape raw) : b ∈ raw := by
  rw [← map_byte_pieces, List.mem_map] at h
  obtain ⟨piece, hpiece, rfl⟩ := h
  rw [← flatMap_bytes_pieces raw, List.mem_flatMap]
  refine ⟨piece, hpiece, ?_⟩
  cases piece with
  | plain b => exact List.mem_singleton_self b
  | escaped b => exact List.mem_cons_of_mem _ (List.mem_singleton_self b)

/-- Every escape that is removed is an ASCII byte less. -/
theorem countP_ascii_eq (raw : List UInt8) :
    raw.countP (· < 0x80) =
      (unescape raw).countP (· < 0x80) + (pieces raw).countP ValuePiece.isEscape := by
  have hcount (ps : List ValuePiece) : (ps.flatMap bytes).countP (· < 0x80) =
      (ps.map byte).countP (· < 0x80) + ps.countP ValuePiece.isEscape := by
    induction ps with
    | nil => rfl
    | cons piece ps ih =>
      rw [List.flatMap_cons, List.countP_append, ih, List.map_cons]
      cases piece with
      | plain b =>
        rw [bytes, byte, List.countP_singleton, List.countP_cons,
          List.countP_cons_of_neg Bool.false_ne_true]
        omega
      | escaped b =>
        rw [bytes, byte, List.countP_cons_of_pos rfl, List.countP_singleton, List.countP_cons,
          List.countP_cons_of_pos rfl]
        omega
  rw [← map_byte_pieces, ← hcount, flatMap_bytes_pieces]

/-! ## Scanning -/

namespace Text

variable {t : Text} {pos stop : Nat}

/-- Such a value ends at the quote behind it. -/
theorem valueStop_of_isLiteral (h : t.holdsAt pos value = true)
    (hvalue : ∀ b ∈ value, Byte.isForbidden b = false)
    (hquote : t[pos + value.length]? = some Byte.quote) (hliteral : IsLiteral value = true) :
    t.valueStop pos = pos + value.length := by
  -- By induction on the value: none of its bytes is escaped, forbidden or a quote.
  induction value generalizing pos with
  | nil =>
    have hquote : t[pos]? = some Byte.quote := hquote
    rw [valueStop_of_getElem? hquote]
    rfl
  | cons b rest ih =>
    obtain ⟨hplain, hslash, hrest⟩ := isLiteral_cons.1 hliteral
    rw [holdsAt, Bool.and_eq_true, beq_iff_eq] at h
    -- A backslash stands in front of something that needs none, or the value is not literal.
    have hescape : (b == Byte.backslash && t[pos + 1]?.any isEscapable) = false := by
      cases hb : b == Byte.backslash with
      | false => rfl
      | true =>
        obtain ⟨c, hc, hescapable⟩ := hslash (beq_iff_eq.1 hb)
        obtain ⟨tail, rfl⟩ := List.head?_eq_some_iff.1 hc
        have hnext := h.2
        rw [holdsAt, Bool.and_eq_true, beq_iff_eq] at hnext
        rw [hnext.1, Option.any_some, hescapable]
        rfl
    have hallowed := hvalue b List.mem_cons_self
    rw [List.length_cons] at hquote ⊢
    rw [valueStop_of_getElem? h.1, hescape, if_neg Bool.false_ne_true,
      if_neg (by simp [hplain, hallowed]),
      ih h.2 (fun c hc => hvalue c (List.mem_cons_of_mem b hc))
        (getElem?_of_eq (by omega) hquote) hrest]
    omega

/-- If scanning stops at the quote behind a value and no piece of the value is an escape, the value
needs none. -/
theorem isLiteral_of_valueStop (h : t.holdsAt pos value = true)
    (hquote : t[pos + value.length]? = some Byte.quote)
    (hstop : t.valueStop pos = pos + value.length)
    (hplain : ∀ piece ∈ pieces value, piece.isEscape = false) : IsLiteral value = true := by
  -- By induction on the value, whose first byte is no escape by what is read from it.
  induction value generalizing pos with
  | nil => rfl
  | cons b rest ih =>
    rw [holdsAt, Bool.and_eq_true, beq_iff_eq] at h
    rw [List.length_cons] at hquote hstop
    rw [valueStop_of_getElem? h.1] at hstop
    have hnext : t[pos + 1]? = some (rest.head?.getD Byte.quote) := by
      cases rest with
      | nil => exact hquote
      | cons c tail =>
        have hrest := h.2
        rw [holdsAt, Bool.and_eq_true, beq_iff_eq] at hrest
        exact hrest.1
    rw [hnext, Option.any_some] at hstop
    split at hstop
    case isTrue hescape =>
      obtain ⟨hslash, hescapable⟩ := Bool.and_eq_true_iff.1 hescape
      cases rest with
      | nil =>
        -- The backslash takes the quote behind the value with it.
        have hle := t.le_valueStop (pos + 2)
        rw [hstop] at hle
        exact absurd hle (by simp)
      | cons c tail =>
        have hescapable : isEscapable c = true := hescapable
        rw [beq_iff_eq.1 hslash, pieces_of_escapable hescapable] at hplain
        exact absurd (hplain _ List.mem_cons_self) (by simp [isEscape])
    case isFalse hescape =>
      split at hstop
      case isTrue => omega
      case isFalse hcontinue =>
        simp only [Bool.or_eq_true, beq_iff_eq, not_or] at hcontinue
        have hpieces : pieces (b :: rest) = plain b :: pieces rest := by
          apply pieces_of_plain
          cases rest with
          | nil => exact Bool.and_false _
          | cons c tail => exact Bool.eq_false_iff.2 hescape
        rw [hpieces] at hplain
        refine isLiteral_cons.2 ⟨hcontinue.1, ?_, ?_⟩
        · rintro rfl
          cases rest with
          | nil => exact absurd rfl hescape
          | cons c tail => exact ⟨c, rfl, by simpa using hescape⟩
        · exact ih h.2 (getElem?_of_eq (by omega) hquote) (by omega) fun piece hpiece =>
            hplain piece (List.mem_cons_of_mem _ hpiece)

/-- A value that is read from between the quotes, or from a part of what stands there, needs no
escapes. The part could only be shorter than the whole if a quote of the value ended it. But that
quote is ASCII, so it is among what was read; and so is every backslash of an escape. -/
theorem isLiteral_of_read (h : t.holdsAt pos value = true)
    (hquote : t[pos + value.length]? = some Byte.quote) (hstop : t.valueStop pos = stop)
    (hclosing : t[stop]? = some Byte.quote) (hle : stop ≤ pos + value.length)
    (hread : utf8 (decode (unescape (t.word ⟨pos, stop⟩)).toByteArray) = value) :
    IsLiteral value = true := by
  have hpos : pos ≤ stop := hstop ▸ t.le_valueStop pos
  have hsplit : t.word ⟨pos, stop⟩ ++ t.word ⟨stop, pos + value.length⟩ = value := by
    rw [word_append hpos hle (Nat.le_of_lt (lt_size_of_getElem? hclosing)), word_of_holdsAt h]
  have hkept : value.countP (· < 0x80) = (unescape (t.word ⟨pos, stop⟩)).countP (· < 0x80) := by
    have hfilter := filter_ascii_utf8_decode (unescape (t.word ⟨pos, stop⟩))
    rw [hread] at hfilter
    rw [List.countP_eq_length_filter, List.countP_eq_length_filter, hfilter]
  have hcount := countP_ascii_eq (t.word ⟨pos, stop⟩)
  have hwhole := congrArg (List.countP (· < 0x80)) hsplit
  rw [List.countP_append] at hwhole
  obtain rfl : stop = pos + value.length := by
    rcases Nat.eq_or_lt_of_le hle with heq | hlt
    · exact heq
    · rw [word_cons hclosing hlt, List.countP_cons_of_pos (by decide)] at hwhole
      omega
  rw [word_of_holdsAt h] at hcount hkept
  have hplain : (pieces value).countP ValuePiece.isEscape = 0 := by omega
  exact isLiteral_of_valueStop h hquote hstop fun piece hpiece =>
    Bool.eq_false_iff.2 (List.countP_eq_zero.1 hplain piece hpiece)

end Text

end Scorebook
