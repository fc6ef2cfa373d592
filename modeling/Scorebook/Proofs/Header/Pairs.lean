import Scorebook.Proofs.Scanning

/-!
# The parts of a tag pair

Reading a tag pair takes three readers, each of which can fail. `Text.Pair` says what all three
found when none did, and `Text.tagPair_eq_ok_iff` is all that other proofs have to know about
reading a pair.
-/

namespace Scorebook

namespace Byte

/-- A name byte is ASCII and starts no gap. -/
theorem plain_of_isName {b : UInt8} :
    isName b = true → b < 0x80 ∧ isBlank b = false ∧ b ≠ percent ∧ b ≠ semicolon ∧ b ≠ openBrace :=
  forall_of_table (p := fun b => isName b = true →
    b < 0x80 ∧ isBlank b = false ∧ b ≠ percent ∧ b ≠ semicolon ∧ b ≠ openBrace)
    (by decide +kernel) b

/-- What is no blank at all is no blank within a line. -/
theorem isInlineBlank_of_isBlank {b : UInt8} : isBlank b = false → Text.isInlineBlank b = false :=
  forall_of_table (p := fun b => isBlank b = false → Text.isInlineBlank b = false)
    (by decide +kernel) b

/-- What can be escaped may stand in a value. -/
theorem not_isForbidden_of_isEscapable {b : UInt8} :
    Text.isEscapable b = true → isForbidden b = false :=
  forall_of_table (p := fun b => Text.isEscapable b = true → isForbidden b = false)
    (by decide +kernel) b

end Byte

namespace Text

/-- Behind the text a value ends at once. -/
theorem valueStop_of_size_le {t : Text} {pos : Nat} (h : t.size ≤ pos) : t.valueStop pos = pos := by
  unfold valueStop
  split
  · rfl
  · next b hb => exact absurd (lt_size_of_getElem? hb) (Nat.not_lt.2 h)

/-- One step through a value. -/
theorem valueStop_of_getElem? {t : Text} {pos : Nat} {b : UInt8} (hb : t[pos]? = some b) :
    t.valueStop pos =
      if b == Byte.backslash && t[pos + 1]?.any isEscapable then t.valueStop (pos + 2)
      else if b == Byte.quote || Byte.isForbidden b then pos
      else t.valueStop (pos + 1) := by
  rw [valueStop]
  split
  · next hnone => rw [hb] at hnone; cases hnone
  · next c hc =>
    obtain rfl : c = b := Option.some.inj (hc.symm.trans hb)
    rfl

/-- A value does not reach over a byte that no value may hold. -/
theorem valueStop_le_of_isForbidden {t : Text} {pos stop : Nat} {b : UInt8}
    (hb : t[stop]? = some b) (hforbidden : Byte.isForbidden b = true) (hle : pos ≤ stop) :
    t.valueStop pos ≤ stop := by
  fun_induction valueStop t pos with
  | case1 pos hnone => exact hle
  | case2 pos c hc hescape ih =>
    obtain ⟨hslash, hescapable⟩ := Bool.and_eq_true_iff.1 hescape
    apply ih
    -- Neither byte of an escape is forbidden.
    rcases Nat.lt_trichotomy stop (pos + 1) with hlt | rfl | hgt
    · obtain rfl : pos = stop := by omega
      obtain rfl : c = b := Option.some.inj (hc.symm.trans hb)
      rw [beq_iff_eq.1 hslash] at hforbidden
      cases hforbidden
    · rw [hb, Option.any_some] at hescapable
      rw [Byte.not_isForbidden_of_isEscapable hescapable] at hforbidden
      cases hforbidden
    · exact hgt
  | case3 pos c hc hescape hstop => exact hle
  | case4 pos c hc hescape hstop ih =>
    apply ih
    rcases Nat.eq_or_lt_of_le hle with rfl | hlt
    · obtain rfl : c = b := Option.some.inj (hc.symm.trans hb)
      rw [hforbidden, Bool.or_true] at hstop
      exact absurd rfl hstop
    · exact hlt

/-- A well-formed tag pair whose bracket is at `start`: its value opens at `quote`, and its closing
bracket is at `bracket`. -/
structure Pair (t : Text) (start : Nat) (tag : RawTag) (quote bracket : Nat) : Prop where
  gap_name : t.gapInTag (start + 1) = .ok tag.name.start
  name_stop : t.seek (!Byte.isName ·) tag.name.start = tag.name.stop
  name_ne : tag.name.stop ≠ tag.name.start
  name_whole : t.seek endsTagName tag.name.stop = tag.name.stop
  gap_quote : t.gapInTag tag.name.stop = .ok quote
  opening : t[quote]? = some Byte.quote
  value_start : tag.value.start = quote + 1
  value_stop : t.valueStop (quote + 1) = tag.value.stop
  closing : t[tag.value.stop]? = some Byte.quote
  gap_bracket : t.gapInTag (tag.value.stop + 1) = .ok bracket
  close : t[bracket]? = some Byte.closeBracket

variable {t : Text} {start stop quote bracket next : Nat} {name value : Span} {tag : RawTag}

/-- A name is read if it is all of its word and the gaps around it are closed. -/
theorem tagName_eq_ok_iff :
    t.tagName start = .ok (name, quote) ↔
      t.gapInTag (start + 1) = .ok name.start ∧
      t.seek (!Byte.isName ·) name.start = name.stop ∧ name.stop ≠ name.start ∧
      t.seek endsTagName name.stop = name.stop ∧ t.gapInTag name.stop = .ok quote := by
  constructor
  · intro h
    unfold tagName at h
    split at h
    · cases h
    · next pos hpos =>
      simp only at h
      split at h
      · cases h
      · next hname =>
        split at h
        · cases h
        · next hquote =>
          cases h
          simp only [not_or, Decidable.not_not] at hname
          exact ⟨hpos, rfl, hname.1, hname.2, hquote⟩
  · rintro ⟨hpos, hstop, hne, hwhole, hquote⟩
    simp only [tagName, hpos, hstop, hwhole, hquote]
    rw [if_neg (by simp [hne])]

/-- A value is read if there is a quote on either side of it. -/
theorem tagValue_eq_ok_iff :
    t.tagValue start quote = .ok value ↔
      t[quote]? = some Byte.quote ∧ value.start = quote + 1 ∧
      t.valueStop (quote + 1) = value.stop ∧ t[value.stop]? = some Byte.quote := by
  constructor
  · intro h
    obtain rfl := start_of_tagValue h
    unfold tagValue at h
    split at h
    · next hopen =>
      simp only at h
      split at h
      · next hclose => exact ⟨hopen, rfl, rfl, hclose⟩
      · split at h <;> cases h
    · cases h
  · obtain ⟨first, last⟩ := value
    rintro ⟨hopen, rfl, rfl, hclose⟩
    rw [tagValue, if_pos hopen]
    exact if_pos hclose

/-- The name of a well-formed pair is read. -/
theorem Pair.tagName (h : t.Pair start tag quote bracket) :
    t.tagName start = .ok (tag.name, quote) :=
  tagName_eq_ok_iff.2 ⟨h.gap_name, h.name_stop, h.name_ne, h.name_whole, h.gap_quote⟩

/-- A tag pair is read exactly if all its parts are there. -/
theorem tagPair_eq_ok_iff :
    t.tagPair start = .ok (tag, next) ↔
      ∃ quote bracket, t.Pair start tag quote bracket ∧ next = bracket + 1 := by
  constructor
  · intro h
    unfold tagPair at h
    split at h
    · cases h
    · next name quote hname =>
      split at h
      · cases h
      · next value hvalue =>
        split at h
        · cases h
        · next bracket hbracket =>
          split at h
          · next hclose =>
            cases h
            obtain ⟨hstart, hstop, hne, hwhole, hquote⟩ := tagName_eq_ok_iff.1 hname
            obtain ⟨hopen, hvstart, hvstop, hvclose⟩ := tagValue_eq_ok_iff.1 hvalue
            exact ⟨quote, bracket, ⟨hstart, hstop, hne, hwhole, hquote, hopen, hvstart, hvstop,
              hvclose, hbracket, hclose⟩, rfl⟩
          · cases h
  · rintro ⟨quote, bracket, hpair, rfl⟩
    have hname := hpair.tagName
    have hvalue : t.tagValue start quote = .ok tag.value := tagValue_eq_ok_iff.2
      ⟨hpair.opening, hpair.value_start, hpair.value_stop, hpair.closing⟩
    simp only [tagPair, hname, hvalue, hpair.gap_bracket, hpair.close, if_true]

namespace Pair

variable (h : t.Pair start tag quote bracket)

include h

/-- The quote is behind the name. -/
theorem name_le_quote : tag.name.stop ≤ quote :=
  le_of_gapInTag h.gap_quote

/-- The value ends behind its opening quote. -/
theorem quote_lt_stop : quote < tag.value.stop :=
  h.value_stop ▸ le_valueStop t (quote + 1)

/-- The bracket is behind the closing quote. -/
theorem stop_lt_bracket : tag.value.stop < bracket :=
  le_of_gapInTag h.gap_bracket

/-- The bracket is in the text. -/
theorem bracket_lt_size : bracket < t.size :=
  lt_size_of_getElem? h.close

/-- The name is not empty. -/
theorem name_lt (hstart : start < t.size) : tag.name.start < tag.name.stop := by
  have hle := le_seek (p := (!Byte.isName ·)) (le_size_of_gapInTag hstart h.gap_name)
  have hne := h.name_ne
  have hstop := h.name_stop
  omega

end Pair

/-! ## Names without gaps -/

/-- A tag pair as far as its opening quote, with no gap in front of its name and one space behind
it. -/
structure TagFront (t : Text) (pos : Nat) (name : List UInt8) : Prop where
  opening : t[pos]? = some Byte.openBracket
  written : t.holdsAt (pos + 1) name = true
  space : t[pos + name.length + 1]? = some Byte.space
  quote : t[pos + name.length + 2]? = some Byte.quote
  name_ne : name ≠ []
  isName : ∀ b ∈ name, Byte.isName b = true

namespace TagFront

variable {pos : Nat} {name : List UInt8} (h : t.TagFront pos name)

include h

/-- The first byte of the name is behind the bracket. -/
theorem name_getElem? : ∃ b, t[pos + 1]? = some b ∧ Byte.isName b = true := by
  obtain ⟨b, rest, hname⟩ := List.exists_cons_of_ne_nil h.name_ne
  have hheld := h.written
  rw [hname, holdsAt, Bool.and_eq_true, beq_iff_eq] at hheld
  exact ⟨b, hheld.1, h.isName b (by rw [hname]; exact List.mem_cons_self)⟩

/-- There is no gap in front of the name. -/
theorem inGap_name : t.inGap (pos + 1) = false := by
  obtain ⟨b, hb, hname⟩ := h.name_getElem?
  obtain ⟨-, hblank, hpercent, hsemicolon, hbrace⟩ := Byte.plain_of_isName hname
  simp [inGap_of_getElem? hb, hblank, hpercent, hsemicolon, hbrace]

/-- There is one blank behind the name. -/
theorem space_behind_name : t[pos + 1 + name.length]? = some Byte.space :=
  getElem?_of_eq (Nat.add_right_comm ..) h.space

theorem seek_name : t.seek (!Byte.isName ·) (pos + 1) = pos + 1 + name.length :=
  seek_of_holdsAt h.written (fun b hb => by simp [h.isName b hb]) h.space_behind_name rfl

/-- The gap behind the name is that blank. -/
theorem gapInTag_quote : t.gapInTag (pos + 1 + name.length) = .ok (pos + name.length + 2) := by
  have hquote : t.inGap (pos + name.length + 2) = false := by
    rw [inGap_of_getElem? h.quote]
    rfl
  have hgap : t.gap (pos + 1 + name.length) = t.gap (pos + name.length + 2) := by
    rw [Nat.add_right_comm]
    exact gapFrom_of_isBlank h.space rfl #[]
  rw [gapInTag_eq_ok_iff, hgap, gap_of_not_inGap hquote]
  exact ⟨rfl, rfl⟩

/-- The name is read, and its value is looked for at the quote. -/
theorem tagName :
    t.tagName pos = .ok (⟨pos + 1, pos + 1 + name.length⟩, pos + name.length + 2) := by
  have hlength := List.length_pos_iff.2 h.name_ne
  exact tagName_eq_ok_iff.2 ⟨gapInTag_of_not_inGap h.inGap_name, h.seek_name, by simp only; omega,
    seek_of_match h.space_behind_name rfl, h.gapInTag_quote⟩

end TagFront

/-! ## Tabs -/

/-- Where there is no tab none is found. -/
theorem tabsBetween_of_no_tab {pos : Nat} {tabs : Array Problem}
    (h : ∀ i, pos ≤ i → i < stop → t[i]? ≠ some Byte.tab) : t.tabsBetween stop pos tabs = tabs := by
  fun_induction tabsBetween t stop pos tabs with
  | case1 pos tabs hlt ih =>
    have hplain : t[pos]?.any (· == Byte.tab) = false := by
      have hne := h pos (Nat.le_refl _) hlt
      cases hb : t[pos]? with
      | none => rfl
      | some b => simpa [hb] using hne
    rw [hplain] at ih ⊢
    exact ih fun i hi hlt => h i (by omega) hlt
  | case2 => rfl

/-- Looking for tabs takes none back. -/
theorem size_le_tabsBetween (t : Text) (stop pos : Nat) (tabs : Array Problem) :
    tabs.size ≤ (t.tabsBetween stop pos tabs).size := by
  fun_induction tabsBetween t stop pos tabs with
  | case1 pos tabs hlt ih =>
    refine Nat.le_trans ?_ ih
    split
    · rw [Array.size_push]
      exact Nat.le_succ _
    · exact Nat.le_refl _
  | case2 => exact Nat.le_refl _

/-- Every tab is reported. -/
theorem size_lt_tabsBetween {pos i : Nat} {tabs : Array Problem} (hi : pos ≤ i) (hlt : i < stop)
    (htab : t[i]? = some Byte.tab) : tabs.size < (t.tabsBetween stop pos tabs).size := by
  fun_induction tabsBetween t stop pos tabs with
  | case1 pos tabs hpos ih =>
    rcases Nat.eq_or_lt_of_le hi with rfl | hi
    · rw [htab, Option.any_some, if_pos (beq_self_eq_true Byte.tab)]
      have hle := size_le_tabsBetween t stop (pos + 1)
        (tabs.push (.fault .tabInTagValue ⟨pos, pos + 1⟩))
      rw [Array.size_push] at hle
      exact hle
    · refine Nat.lt_of_le_of_lt ?_ (ih hi)
      split
      · rw [Array.size_push]
        exact Nat.le_succ _
      · exact Nat.le_refl _
  | case2 => omega

/-! ## The end of a pair -/

/-- A tag pair ends inside the text. -/
theorem le_size_of_tagPair (h : t.tagPair start = .ok (tag, next)) : next ≤ t.size := by
  obtain ⟨quote, bracket, hpair, rfl⟩ := tagPair_eq_ok_iff.1 h
  exact hpair.bracket_lt_size

/-- What holds of every pair that is read holds of the pairs of a header. -/
theorem forall_mem_headerFrom_tags {strict : Bool} {pos : Nat} {P : RawTag → Prop}
    (hpair : ∀ pos tag next, pos < t.size → t.tagPair pos = .ok (tag, next) → P tag)
    {tags : Array RawTag} {problems : Array Problem} (htags : ∀ tag ∈ tags.toList, P tag) :
    ∀ tag ∈ (t.headerFrom strict start pos stop tags problems).tags, P tag := by
  fun_induction headerFrom t strict start pos stop tags problems with
  | case1 pos stop tags problems hb warned tag next hfound gap ih =>
    apply ih
    intro tag' htag'
    rw [Array.toList_push, List.mem_append, List.mem_singleton] at htag'
    rcases htag' with hold | rfl
    · exact htags tag' hold
    · exact hpair pos tag' next (lt_size_of_getElem? hb) hfound
  | case2 pos stop tags problems hb warned problem hfound next gap ih => exact ih htags
  | case3 => exact htags

end Text

end Scorebook
