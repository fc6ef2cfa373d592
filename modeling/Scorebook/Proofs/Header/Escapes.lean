import Scorebook.Proofs.Header.Pairs
import Scorebook.Proofs.Written.Format

/-!
# Which backslashes escape

A value is gone through twice: once by the scanner, which has to know the quote that ends it from
those inside it, and once when its escapes are removed. Both take backslashes from left to right,
each with the byte behind it if that is a backslash or a quote. So either cuts the value into
pieces, which are a byte by itself or a backslash and the byte it escapes. The two cut alike
(`Text.valuePieces_eq`), and no quote is a piece by itself.
-/

namespace Scorebook

/-- What a value is taken apart into. -/
inductive ValuePiece
  /-- A byte that stands for itself. -/
  | plain (b : UInt8)
  /-- A byte with the backslash that escapes it in front. -/
  | escaped (b : UInt8)
deriving DecidableEq, Repr

namespace ValuePiece

/-- The piece as it is written. -/
def bytes : ValuePiece → List UInt8
  | plain b => [b]
  | escaped b => [Byte.backslash, b]

/-- The byte that the piece means. -/
def byte : ValuePiece → UInt8
  | plain b => b
  | escaped b => b

end ValuePiece

open ValuePiece

/-! ## Removing escapes -/

/-- The pieces that removing the escapes takes a value apart into. -/
def pieces : List UInt8 → List ValuePiece
  | Byte.backslash :: Byte.backslash :: rest => escaped Byte.backslash :: pieces rest
  | Byte.backslash :: Byte.quote :: rest => escaped Byte.quote :: pieces rest
  | b :: rest => plain b :: pieces rest
  | [] => []

/-- The pieces mean the value without its escapes. -/
theorem map_byte_pieces (raw : List UInt8) : (pieces raw).map byte = unescape raw := by
  fun_induction pieces raw with
  | case1 rest ih => exact congrArg (Byte.backslash :: ·) ih
  | case2 rest ih => exact congrArg (Byte.quote :: ·) ih
  | case3 b rest hslash hquote ih =>
    rw [unescape, List.map_cons, ih]
    · rfl
    · exact hslash
    · exact hquote
  | case4 => rfl

/-- The pieces put together are the value. -/
theorem flatMap_bytes_pieces (raw : List UInt8) : (pieces raw).flatMap bytes = raw := by
  fun_induction pieces raw with
  | case1 rest ih => rw [List.flatMap_cons, ih]; rfl
  | case2 rest ih => rw [List.flatMap_cons, ih]; rfl
  | case3 b rest _ _ ih => rw [List.flatMap_cons, ih]; rfl
  | case4 => rfl

variable {b : UInt8} {raw rest before after : List UInt8}

/-- A backslash and what it may escape are one piece. -/
theorem pieces_of_escapable (hb : Text.isEscapable b = true) (rest : List UInt8) :
    pieces (Byte.backslash :: b :: rest) = escaped b :: pieces rest := by
  rcases Bool.or_eq_true_iff.1 hb with hb | hb
  · rw [beq_iff_eq.1 hb]
    rfl
  · rw [beq_iff_eq.1 hb]
    rfl

/-- Any other byte is a piece of its own. -/
theorem pieces_of_plain (h : (b == Byte.backslash && rest.head?.any Text.isEscapable) = false) :
    pieces (b :: rest) = plain b :: pieces rest := by
  rw [pieces]
  · rintro rest rfl rfl
    cases h
  · rintro rest rfl rfl
    cases h

/-- A quote in a value that has no quote by itself comes behind the backslash that escapes it. -/
theorem exists_escaped_of_quote (hquote : plain Byte.quote ∉ pieces raw)
    (hsplit : raw = before ++ Byte.quote :: after) :
    ∃ head, before = head ++ [Byte.backslash] ∧
      pieces raw = pieces head ++ escaped Byte.quote :: pieces after := by
  -- By the recursion of `pieces`. An escaped quote is found with its backslash.
  fun_induction pieces raw generalizing before with
  | case1 rest ih =>
    match before, hsplit with
    | _ :: _ :: before, hsplit =>
      obtain ⟨rfl, rfl, hrest⟩ := List.cons_eq_cons.1 hsplit |>.imp_right List.cons_eq_cons.1
      obtain ⟨head, rfl, hpieces⟩ := ih (fun hmem => hquote (List.mem_cons_of_mem _ hmem)) hrest
      exact ⟨Byte.backslash :: Byte.backslash :: head, rfl, congrArg (escaped _ :: ·) hpieces⟩
  | case2 rest ih =>
    match before, hsplit with
    | [_], hsplit =>
      obtain ⟨rfl, -, rfl⟩ := List.cons_eq_cons.1 hsplit |>.imp_right List.cons_eq_cons.1
      exact ⟨[], rfl, rfl⟩
    | _ :: _ :: before, hsplit =>
      obtain ⟨rfl, rfl, hrest⟩ := List.cons_eq_cons.1 hsplit |>.imp_right List.cons_eq_cons.1
      obtain ⟨head, rfl, hpieces⟩ := ih (fun hmem => hquote (List.mem_cons_of_mem _ hmem)) hrest
      exact ⟨Byte.backslash :: Byte.quote :: head, rfl, congrArg (escaped _ :: ·) hpieces⟩
  | case3 b rest hslash hescape ih =>
    match before, hsplit with
    | [], hsplit =>
      obtain ⟨rfl, -⟩ := List.cons_eq_cons.1 hsplit
      exact absurd List.mem_cons_self hquote
    | _ :: before, hsplit =>
      obtain ⟨rfl, hrest⟩ := List.cons_eq_cons.1 hsplit
      obtain ⟨head, rfl, hpieces⟩ := ih (fun hmem => hquote (List.mem_cons_of_mem _ hmem)) hrest
      refine ⟨b :: head, rfl, ?_⟩
      -- What stands behind `b` in `head` stands behind it in the whole value.
      rw [pieces, hpieces]
      · rfl
      · rintro tail rfl rfl
        exact hslash _ rfl hrest
      · rintro tail rfl rfl
        exact hescape _ rfl hrest
  | case4 => cases before <;> cases hsplit

/-! ## Scanning -/

namespace Text

variable {t : Text} {pos : Nat}

/-- The pieces that scanning a value from `pos` on steps over. -/
def valuePieces (t : Text) (pos : Nat) : List ValuePiece :=
  match h : t[pos]? with
  | none => []
  | some b =>
    if b == Byte.backslash && t[pos + 1]?.any isEscapable then
      (t[pos + 1]?.map escaped).toList ++ t.valuePieces (pos + 2)
    else if b == Byte.quote || Byte.isForbidden b then []
    else plain b :: t.valuePieces (pos + 1)
termination_by t.size - pos
decreasing_by all_goals have := lt_size_of_getElem? h; omega

/-- A piece that a value may have: no quote and no forbidden byte by itself. -/
def allowsPiece : ValuePiece → Bool
  | plain b => b != Byte.quote && !Byte.isForbidden b
  | escaped b => isEscapable b

/-- A piece that is allowed has no forbidden byte. -/
theorem not_isForbidden_of_allowsPiece {piece : ValuePiece} (h : allowsPiece piece = true)
    {b : UInt8} (hb : b ∈ piece.bytes) : Byte.isForbidden b = false := by
  cases piece with
  | plain c =>
    obtain rfl := List.mem_singleton.1 hb
    exact by simpa using (Bool.and_eq_true_iff.1 h).2
  | escaped c =>
    rcases List.mem_cons.1 hb with rfl | hb
    · rfl
    obtain rfl := List.mem_singleton.1 hb
    rcases Bool.or_eq_true_iff.1 h with hb | hb
    · rw [beq_iff_eq.1 hb]
      rfl
    · rw [beq_iff_eq.1 hb]
      rfl

/-- The scanner takes only pieces that are allowed. -/
theorem allowsPiece_valuePieces (t : Text) (pos : Nat) :
    ∀ piece ∈ t.valuePieces pos, allowsPiece piece = true := by
  fun_induction valuePieces t pos with
  | case1 => nofun
  | case2 pos b hb hescape ih =>
    obtain ⟨c, hc, hescapable⟩ := (Option.any_eq_true ..).1 (Bool.and_eq_true_iff.1 hescape).2
    rw [hc]
    intro piece hpiece
    rcases List.mem_cons.1 hpiece with rfl | hpiece
    · exact hescapable
    · exact ih piece hpiece
  | case3 => nofun
  | case4 pos b hb hescape hstop ih =>
    intro piece hpiece
    rcases List.mem_cons.1 hpiece with rfl | hpiece
    · simpa [allowsPiece] using hstop
    · exact ih piece hpiece

/-- The scanner takes a value apart like the removal of its escapes. -/
theorem valuePieces_eq (t : Text) (pos : Nat) :
    t.valuePieces pos = pieces (t.word ⟨pos, t.valueStop pos⟩) := by
  -- By the recursion of the scanner, which takes one piece at a time.
  fun_induction valuePieces t pos with
  | case1 pos hnone =>
    rw [valueStop_of_size_le (getElem?_eq_none_iff.1 hnone), word_of_le (Nat.le_refl pos)]
    rfl
  | case2 pos b hb hescape ih =>
    obtain ⟨hslash, hany⟩ := Bool.and_eq_true_iff.1 hescape
    obtain ⟨c, hc, hescapable⟩ := (Option.any_eq_true ..).1 hany
    have hle := t.le_valueStop (pos + 2)
    rw [valueStop_of_getElem? hb, if_pos hescape, word_cons hb (by omega), word_cons hc hle,
      beq_iff_eq.1 hslash, pieces_of_escapable hescapable, ← ih, hc]
    rfl
  | case3 pos b hb hescape hstop =>
    rw [valueStop_of_getElem? hb, if_neg hescape, if_pos hstop, word_of_le (Nat.le_refl pos)]
    rfl
  | case4 pos b hb hescape hstop ih =>
    have hle := t.le_valueStop (pos + 1)
    rw [valueStop_of_getElem? hb, if_neg hescape, if_neg hstop, word_cons hb hle, pieces_of_plain,
      ih]
    -- What is behind `b` in the value, if anything is, is what the scanner saw there.
    rw [List.head?_eq_getElem?, getElem?_word]
    split
    · exact Bool.not_eq_true _ ▸ hescape
    · rw [Option.any_none, Bool.and_false]

/-- An escaped value ends at the quote behind it. -/
theorem valueStop_escape {value : List UInt8}
    (h : t.holdsAt pos (escape value) = true) (hvalue : ∀ b ∈ value, Byte.isForbidden b = false)
    (hquote : t[pos + (escape value).length]? = some Byte.quote) :
    t.valueStop pos = pos + (escape value).length := by
  -- By induction on the value: an escaped byte is passed over with its backslash.
  induction value generalizing pos with
  | nil =>
    have hquote : t[pos]? = some Byte.quote := hquote
    rw [valueStop_of_getElem? hquote]
    rfl
  | cons b rest ih =>
    have hb := hvalue b List.mem_cons_self
    have hrest := fun c hc => hvalue c (List.mem_cons_of_mem b hc)
    unfold escape at h hquote ⊢
    split at h
    · next hescape =>
      rw [if_pos hescape] at hquote ⊢
      simp only [holdsAt, Bool.and_eq_true, beq_iff_eq, List.length_cons] at h hquote ⊢
      rw [valueStop_of_getElem? h.1, h.2.1, if_pos (by simp [hescape]),
        ih h.2.2 hrest (getElem?_of_eq (by omega) hquote)]
      omega
    · next hplain =>
      rw [if_neg hplain] at hquote ⊢
      simp only [holdsAt, Bool.and_eq_true, beq_iff_eq, List.length_cons] at h hquote ⊢
      simp only [isEscapable, Bool.or_eq_true, not_or, Bool.not_eq_true] at hplain
      rw [valueStop_of_getElem? h.1, if_neg (by simp [hplain.1]), if_neg (by simp [hplain.2, hb]),
        ih h.2 hrest (getElem?_of_eq (by omega) hquote)]
      omega

end Text

end Scorebook
