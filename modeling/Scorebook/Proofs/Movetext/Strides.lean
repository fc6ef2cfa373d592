import Scorebook.Proofs.Catalogue.Growing
import Scorebook.Proofs.Movetext.Lexemes

/-!
# Movetext in strides

Cataloguing steps over movetext without a look inside: a gap, a stretch, a gap, a stretch, up to the
next header. `Text.strides` lists what is stepped over on the way, and `movetextFrom` finds where
the stretches end and which problems the gaps have. Reading a game goes over the same bytes token by
token. A token ends at all the bytes that end a stretch and at some more, and in a stretch no
comment opens, so a stretch is a row of whole tokens (`lexemesAt_of_stretch`).
-/

namespace Scorebook

/-- What cataloguing steps over in movetext. -/
inductive Stride
  /-- A comment, by its body. -/
  | comment (body : Span)
  /-- A comment or escaped line that is never ended. -/
  | openEnd (problem : Problem)
  | stretch (span : Span)
deriving DecidableEq, Repr

namespace Stride

def comment? : Stride → Option Span
  | comment body => some body
  | _ => none

def problem? : Stride → Option Problem
  | openEnd problem => some problem
  | _ => none

end Stride

/-- The lexeme is a token in this range. -/
def Lexeme.IsTokenIn (s : Span) (lexeme : Lexeme) : Prop :=
  ∃ token span, lexeme = .token token span ∧ s.start ≤ span.start ∧ span.stop ≤ s.stop

/-- The strides of a gap. -/
def Gap.strides (gap : Gap) : List Stride :=
  gap.comments.toList.map .comment ++ gap.problem?.toList.map .openEnd

@[simp] theorem Gap.filterMap_comment?_strides (gap : Gap) :
    gap.strides.filterMap Stride.comment? = gap.comments.toList := by
  cases h : gap.problem? <;> simp [strides, h, List.filterMap_map, Function.comp_def,
    Stride.comment?]

namespace Text

variable {t u : Text} {pos start stop i n : Nat} {b : UInt8} {p q : UInt8 → Bool}

/-! ## Strides -/

/-- What is stepped over from `pos` on to the next header or the end of the text. -/
def strides (t : Text) (pos : Nat) : List Stride :=
  let gap := t.gap pos
  gap.strides ++
    if t.size ≤ gap.stop ∨ t.opensTag gap.stop then []
    else
      let stop := t.seek endsStretch (gap.stop + 1)
      .stretch ⟨gap.stop, stop⟩ :: t.strides stop
termination_by t.size - pos
decreasing_by
  have : pos ≤ gap.stop := le_gap_stop t pos
  have : gap.stop + 1 ≤ t.seek endsStretch (gap.stop + 1) := le_seek (by omega)
  show t.size - t.seek endsStretch (gap.stop + 1) < t.size - pos
  omega

/-- Where the movetext ends the last gap is stepped over. -/
theorem strides_of_end (h : t.size ≤ (t.gap pos).stop ∨ t.opensTag (t.gap pos).stop = true) :
    t.strides pos = (t.gap pos).strides := by
  rw [strides]
  simp only [if_pos h, List.append_nil]

/-- Anywhere else a stretch is stepped over behind the gap. -/
theorem strides_of_stretch
    (h : ¬(t.size ≤ (t.gap pos).stop ∨ t.opensTag (t.gap pos).stop = true)) :
    t.strides pos = (t.gap pos).strides ++
      .stretch ⟨(t.gap pos).stop, t.seek endsStretch ((t.gap pos).stop + 1)⟩ ::
        t.strides (t.seek endsStretch ((t.gap pos).stop + 1)) := by
  rw [strides]
  simp only [if_neg h]

/-- A search can be begun anywhere in front of its result. -/
theorem seek_of_le_seek (hle : pos ≤ i) (hi : i ≤ t.seek p pos) : t.seek p i = t.seek p pos := by
  induction hle with
  | refl => rfl
  | @step i hle ih =>
    have hlt : i < t.seek p pos := hi
    rw [← ih (Nat.le_of_lt hlt)]
    have hsize := Nat.lt_of_lt_of_le hlt (seek_le_size ..)
    obtain ⟨c, hc⟩ := exists_getElem? hsize
    exact (seek_of_not_match hc (not_of_lt_seek hle hlt hc)).symm

/-! ## Tokens end where stretches do, or before -/

theorem endsWord_of_endsStretch {b : UInt8} : endsStretch b = true → endsWord b = true :=
  Byte.forall_of_table (p := fun b => endsStretch b = true → endsWord b = true)
    (by decide +kernel) b

theorem seek_endsWord_le (hle : pos ≤ t.size) : t.seek endsWord pos ≤ t.seek endsStretch pos := by
  rcases t.seek_eq_size_or endsStretch pos with hsize | ⟨c, hc, hends⟩
  · rw [hsize]
    exact seek_le_size ..
  · exact seek_le_of_match (le_seek hle) hc (endsWord_of_endsStretch hends)

theorem seek_endsWord_le_of_word (hb : t[pos]? = some b) (hword : endsWord b = false) :
    t.seek endsWord pos ≤ t.seek endsStretch (pos + 1) := by
  rw [seek_of_not_match hb hword]
  exact seek_endsWord_le (lt_size_of_getElem? hb)

/-- A move does not reach beyond its stretch. -/
theorem moveAt_le (hb : t[pos]? = some b) (hword : endsWord b = false) :
    (t.moveAt pos).2 ≤ t.seek endsStretch (pos + 1) := by
  have hle := seek_endsWord_le_of_word hb hword
  unfold moveAt
  simp only
  split
  · exact hle
  · split
    · exact Nat.le_trans (Nat.sub_le ..) hle
    · exact hle

/-- Dots behind a number end no stretch. -/
theorem seek_dots_le (hle : i ≤ t.seek p pos) (hdot : p Byte.dot = false) :
    t.seek (· != Byte.dot) i ≤ t.seek p pos := by
  rcases t.seek_eq_size_or p pos with hsize | ⟨c, hc, hp⟩
  · rw [hsize]
    exact seek_le_size ..
  · refine seek_le_of_match hle hc ?_
    rw [bne_iff_ne]
    rintro rfl
    rw [hdot] at hp
    cases hp

/-- Nor does a numeral. -/
theorem numeralAt_le (hb : t[pos]? = some b) (hword : endsWord b = false) :
    (t.numeralAt pos).2 ≤ t.seek endsStretch (pos + 1) := by
  have hle := seek_endsWord_le_of_word hb hword
  unfold numeralAt
  simp only
  split
  · exact hle
  · split
    · exact moveAt_le hb hword
    · split
      · exact seek_dots_le hle rfl
      · split <;> exact hle

theorem not_endsStretch_of_symbol : ∀ s ∈ Nag.symbols, ∀ c ∈ s.1, endsStretch c = false := by
  decide +kernel

/-- No byte of a symbol ends a stretch. -/
theorem endsStretch_of_symbol {bytes : List UInt8} {nag : Nag} {length : Nat}
    (h : Nag.symbolAt? bytes = some (nag, length)) :
    ∀ c ∈ bytes.take length, endsStretch c = false := by
  obtain ⟨m, -, hm⟩ := List.exists_of_findSome?_eq_some h
  split at hm
  · obtain ⟨_, hlookup, heq⟩ := Option.map_eq_some_iff.1 hm
    cases heq
    obtain ⟨s, hmem, hs⟩ := List.lookup_isSome_iff.1 (Option.isSome_of_eq_some hlookup)
    rw [beq_iff_eq.1 hs]
    exact not_endsStretch_of_symbol s hmem
  · cases hm

/-- Nor does a symbol. -/
theorem symbolAt_le (first : UInt8) (hlt : pos < t.size) :
    (t.symbolAt pos first).2 ≤ t.seek endsStretch (pos + 1) := by
  unfold symbolAt
  split
  · next nag length hsymbol =>
    have hbytes := endsStretch_of_symbol hsymbol
    have hlength := (Nag.le_length_of_symbolAt? hsymbol).2
    rw [length_word] at hlength
    -- A byte that ended the stretch inside the symbol would be one of its bytes.
    rcases Nat.lt_or_ge (t.seek endsStretch (pos + 1)) (pos + length) with hin | hge
    · have hlow : pos + 1 ≤ t.seek endsStretch (pos + 1) := le_seek hlt
      simp only at hlength
      obtain ⟨c, hc, hends⟩ : ∃ c, t[t.seek endsStretch (pos + 1)]? = some c ∧
          endsStretch c = true := match_of_seek_lt (by omega)
      obtain ⟨k, hk⟩ := Nat.exists_eq_add_of_le (Nat.le_of_succ_le hlow)
      have hmem : c ∈ (t.word ⟨pos, pos + symbolReach⟩).take length := by
        refine List.mem_of_getElem? (i := k) ?_
        rw [List.getElem?_take, if_pos (by omega), getElem?_word, if_pos (by simp only; omega)]
        exact hk ▸ hc
      rw [hbytes c hmem] at hends
      cases hends
    · exact hge
  · have hle := seek_endsWord_le (Nat.succ_le_of_lt hlt)
    simp only
    split
    · exact hle
    · split <;> exact hle

/-- Nor does a glyph. -/
theorem nagAt_le (hlt : pos < t.size) : (t.nagAt pos).2 ≤ t.seek endsStretch (pos + 1) := by
  have hle := seek_endsWord_le (Nat.succ_le_of_lt hlt)
  unfold nagAt
  simp only
  split <;> exact hle

/-- A token ends no later than the stretch it starts in. -/
theorem tokenAt_le (hb : t[pos]? = some b) :
    (t.tokenAt pos b).2 ≤ t.seek endsStretch (pos + 1) := by
  have hlt := lt_size_of_getElem? hb
  have hone : pos + 1 ≤ t.seek endsStretch (pos + 1) := le_seek hlt
  unfold tokenAt
  split
  · exact hone
  split
  · exact hone
  split
  · exact hone
  split
  · exact nagAt_le hlt
  split
  · next hdigit => exact numeralAt_le hb (endsWord_of_isDigit hdigit)
  split
  · next hletter => exact moveAt_le hb (endsWord_of_isLetter hletter)
  · exact symbolAt_le b hlt

/-! ## A stretch is a row of tokens -/

/-- No gap goes on in a stretch. -/
theorem inGap_of_stretch (hstart : t.inGap start = false) (hi : start ≤ i)
    (hlt : i < t.seek endsStretch (start + 1)) : t.inGap i = false := by
  rcases Nat.eq_or_lt_of_le hi with rfl | hi
  · exact hstart
  · obtain ⟨c, hc⟩ := exists_getElem? (Nat.lt_of_lt_of_le hlt (seek_le_size ..))
    obtain ⟨k, rfl⟩ : ∃ k, i = k + 1 := ⟨i - 1, by omega⟩
    obtain ⟨d, hd⟩ := exists_getElem? (Nat.lt_of_succ_lt (lt_size_of_getElem? hc))
    have hfirst := not_atLineStart hd (not_isBlank_of_stretch hstart (by omega) (by omega) hd)
    have hends := not_of_lt_seek hi hlt hc
    simp only [endsStretch, Bool.or_eq_false_iff] at hends
    rw [inGap_of_getElem? hc]
    simp [hends, hfirst]

/-- From a place in a stretch there are tokens up to its end. -/
theorem lexemesAt_of_stretch (hstart : t.inGap start = false) (hi : start ≤ pos)
    (hle : pos ≤ t.seek endsStretch (start + 1)) :
    ∃ tokens, t.lexemesAt pos = tokens ++ t.lexemesAt (t.seek endsStretch (start + 1)) ∧
      ∀ lexeme ∈ tokens, lexeme.IsTokenIn ⟨start, t.seek endsStretch (start + 1)⟩ := by
  induction hleft : t.seek endsStretch (start + 1) - pos using Nat.strongRecOn generalizing pos with
  | ind left ih =>
    rcases Nat.eq_or_lt_of_le hle with heq | hlt
    · exact ⟨[], by rw [← heq]; rfl, nofun⟩
    · obtain ⟨first, hfirst⟩ := exists_getElem? (Nat.lt_of_lt_of_le hlt (seek_le_size ..))
      have htoken := lt_tokenAt hfirst
      have hend := tokenAt_le hfirst
      rw [seek_of_le_seek (Nat.succ_le_succ hi) hlt] at hend
      obtain ⟨tokens, htokens, hall⟩ := ih _ (by omega)
        (Nat.le_of_lt (Nat.lt_of_le_of_lt hi htoken)) hend rfl
      refine ⟨.token (t.tokenAt pos first).1 ⟨pos, (t.tokenAt pos first).2⟩ :: tokens, ?_, ?_⟩
      · rw [lexemesAt_of_not_inGap hfirst (inGap_of_stretch hstart hi hlt), htokens,
          List.cons_append]
      · intro lexeme hmem
        rcases List.mem_cons.1 hmem with rfl | hmem
        · exact ⟨_, _, rfl, hi, hend⟩
        · exact hall lexeme hmem

end Text

end Scorebook
