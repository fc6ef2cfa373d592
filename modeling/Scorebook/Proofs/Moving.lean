import Scorebook.Proofs.Header.Cutting

/-!
# Texts moved along

A text that stands behind another one is the same text with every offset raised by the same
distance, and the scanners take it so: what they find in the text by itself they find in its new
place, moved by that distance, problems included. There is one thing they see of what stands in
front: whether the first byte begins a line. That matters to nobody but an escaped line, so
`Text.Moved` asks for it only where the text starts with a percent sign.
-/

namespace Scorebook

/-! ## Moving what is found -/

/-- An answer is no error to map. -/
theorem mapError_ok {α ε ε' : Type} (f : ε → ε') (a : α) :
    (Except.ok a : Except ε α).mapError f = .ok a :=
  rfl

theorem mapError_error {α ε ε' : Type} (f : ε → ε') (e : ε) :
    (Except.error e : Except ε α).mapError f = .error (f e) :=
  rfl

/-- The range `d` bytes further on. -/
def Span.moved (d : Nat) (s : Span) : Span :=
  ⟨s.start + d, s.stop + d⟩

/-- The problem in a text that stands `d` bytes further on. -/
def Problem.moved (d : Nat) : Problem → Problem
  | .fault kind span => .fault kind (span.moved d)
  | .gameOutOfRange game span => .gameOutOfRange game (span.moved d)
  | .hashMismatch game span => .hashMismatch game (span.moved d)
  | .tokensAfterTermination marker extra =>
    .tokensAfterTermination (marker.moved d) (extra.moved d)
  | .io reason => .io reason

/-- A problem that is moved keeps its verdict. -/
@[simp] theorem Problem.verdict_moved (d : Nat) (p : Problem) :
    (p.moved d).verdict = p.verdict := by
  cases p <;> rfl

/-- A problem that is moved is as advisory as before. -/
@[simp] theorem Problem.isAdvisory_moved (d : Nat) (p : Problem) :
    (p.moved d).isAdvisory = p.isAdvisory := by
  cases p with
  | fault kind span => cases kind <;> rfl
  | _ => rfl

/-- Where problems lie does not show in the verdict on them. -/
theorem Verdict.ofProblems_moved (d : Nat) (problems : List Problem) :
    Verdict.ofProblems (problems.map (Problem.moved d)) = Verdict.ofProblems problems := by
  simp only [ofProblems, List.find?_map, Function.comp_def, Problem.isAdvisory_moved,
    Option.map_map, Problem.verdict_moved]

/-- The gap in a text that stands `d` bytes further on. -/
def Gap.moved (d : Nat) (g : Gap) : Gap :=
  ⟨g.stop + d, g.comments.map (Span.moved d), g.problem?.map (Problem.moved d)⟩

/-- The tag pair in a text that stands `d` bytes further on. -/
def RawTag.moved (d : Nat) (tag : RawTag) : RawTag :=
  ⟨tag.name.moved d, tag.value.moved d⟩

/-- The header in a text that stands `d` bytes further on. -/
def Header.moved (d : Nat) (h : Header) : Header :=
  ⟨h.span.moved d, h.next + d, h.movetext + d, h.tags.map (RawTag.moved d),
    h.problems.map (Problem.moved d)⟩

namespace Text

/-- The text `u` holds the text `t` from `d` on and nothing behind it. -/
structure Moved (t u : Text) (d : Nat) : Prop where
  size_eq : u.size = t.size + d
  getElem?_eq : ∀ i, u[i + d]? = t[i]?
  atLineStart_of_percent : t[0]? = some Byte.percent → u.atLineStart d = true

variable {t u : Text} {d pos start stop n : Nat} {b : UInt8} {p : UInt8 → Bool}

namespace Moved

variable (h : Moved t u d)

include h

/-- The bytes are the same, further on. -/
theorem getElem? (hb : t[pos]? = some b) : u[pos + d]? = some b :=
  (h.getElem?_eq pos).trans hb

/-- The texts stay moved against each other when they are cut off alike. -/
theorem upTo (n : Nat) : Moved (t.upTo n) (u.upTo (n + d)) d where
  size_eq := by
    rw [size_upTo, size_upTo, h.size_eq]
    omega
  getElem?_eq := by
    intro i
    rw [getElem?_upTo, getElem?_upTo, h.getElem?_eq]
    simp only [Nat.add_lt_add_iff_right]
  atLineStart_of_percent := by
    intro hpercent
    have hlt := lt_size_of_getElem? hpercent
    rw [size_upTo] at hlt
    rw [getElem?_upTo, if_pos (by omega)] at hpercent
    have hfirst := h.atLineStart_of_percent hpercent
    cases d with
    | zero => rfl
    | succ d =>
      rw [atLineStart, getElem?_upTo, if_pos (by omega)]
      exact hfirst

/-! ## Small scanners -/

/-- Behind the first byte lines start in the same places. -/
theorem atLineStart_succ (pos : Nat) : u.atLineStart (pos + 1 + d) = t.atLineStart (pos + 1) := by
  rw [Nat.add_right_comm, atLineStart, atLineStart, h.getElem?_eq]

/-- A percent sign escapes its line in the one text if and only if it does so in the other. -/
theorem percent_atLineStart (hb : t[pos]? = some b) :
    (b == Byte.percent && u.atLineStart (pos + d)) = (b == Byte.percent && t.atLineStart pos) := by
  cases hpercent : b == Byte.percent with
  | false => rfl
  | true =>
    cases pos with
    | zero =>
      rw [beq_iff_eq.1 hpercent] at hb
      rw [Nat.zero_add, h.atLineStart_of_percent hb]
      rfl
    | succ pos => rw [h.atLineStart_succ]

/-- What is sought is found as much further on. -/
theorem seek (p : UInt8 → Bool) (pos : Nat) : u.seek p (pos + d) = t.seek p pos + d := by
  fun_induction Text.seek t p pos with
  | case1 pos hpos hp => exact seek_of_match (h.getElem? (getElem?_eq_some_iff.2 ⟨hpos, rfl⟩)) hp
  | case2 pos hpos hp ih =>
    have hb := h.getElem? (getElem?_eq_some_iff.2 ⟨hpos, rfl⟩)
    rw [seek_of_not_match hb (by simpa using hp), Nat.add_right_comm]
    exact ih
  | case3 pos hpos =>
    have hsize := h.size_eq
    rw [seek_of_size_le (by omega), hsize]

theorem lineEnd (pos : Nat) : u.lineEnd (pos + d) = t.lineEnd pos + d :=
  h.seek _ pos

/-- Gaps have the same parts, further on, and the same problem. -/
theorem gapFrom (pos : Nat) (comments : Array Span) :
    u.gapFrom (pos + d) (comments.map (Span.moved d)) = (t.gapFrom pos comments).moved d := by
  -- Along the recursion of the scanner: every byte it looks at is the same, `d` further on.
  have hsize := h.size_eq
  fun_induction Text.gapFrom t pos comments with
  | case1 pos comments hb =>
    have hbu : u[pos + d]? = none := (h.getElem?_eq pos).trans hb
    exact gapFrom_of_not_inGap (by simp [inGap, hbu]) _
  | case2 pos comments b hb hblank ih =>
    rw [gapFrom_of_isBlank (h.getElem? hb) hblank, Nat.add_right_comm]
    exact ih
  | case3 pos comments b hb hblank hescape eol heol ih =>
    -- Only here and below does the scanner ask for the byte in front.
    have hline : u.lineEnd (pos + d) = eol + d := h.lineEnd pos
    rw [gapFrom_of_getElem? (h.getElem? hb), if_neg hblank, h.percent_atLineStart hb,
      if_pos hescape, hline, if_pos (by omega), Nat.add_right_comm]
    exact ih
  | case4 pos comments b hb hblank hescape eol heol =>
    have hline : u.lineEnd (pos + d) = eol + d := h.lineEnd pos
    rw [gapFrom_of_getElem? (h.getElem? hb), if_neg hblank, h.percent_atLineStart hb,
      if_pos hescape, hline, if_neg (by omega), hsize]
    rfl
  | case5 pos comments eol hb hblank hescape ih =>
    have hline : u.lineEnd (pos + d) = eol + d := h.lineEnd pos
    rw [gapFrom_of_getElem? (h.getElem? hb), if_neg hblank, h.percent_atLineStart hb,
      if_neg hescape, if_pos rfl, hline, Nat.add_right_comm pos d 1]
    rw [Array.map_push] at ih
    exact ih
  | case6 pos comments b hb hblank hescape hcomment hbrace close hclose ih =>
    have hseek : u.seek (· == Byte.closeBrace) (pos + d) = close + d := h.seek _ pos
    rw [gapFrom_of_getElem? (h.getElem? hb), if_neg hblank, h.percent_atLineStart hb,
      if_neg hescape, if_neg hcomment, if_pos hbrace, hseek, if_pos (by omega),
      Nat.add_right_comm close d 1, Nat.add_right_comm pos d 1]
    rw [Array.map_push] at ih
    exact ih
  | case7 pos comments b hb hblank hescape hcomment hbrace close hclose =>
    have hseek : u.seek (· == Byte.closeBrace) (pos + d) = close + d := h.seek _ pos
    rw [gapFrom_of_getElem? (h.getElem? hb), if_neg hblank, h.percent_atLineStart hb,
      if_neg hescape, if_neg hcomment, if_pos hbrace, hseek, if_neg (by omega), hsize,
      Nat.add_right_comm pos d 1]
    simp only [Gap.moved, Array.map_push]
    rfl
  | case8 pos comments b hb hblank hescape hcomment hbrace =>
    rw [gapFrom_of_getElem? (h.getElem? hb), if_neg hblank, h.percent_atLineStart hb,
      if_neg hescape, if_neg hcomment, if_neg hbrace]
    rfl

theorem gap (pos : Nat) : u.gap (pos + d) = (t.gap pos).moved d := by
  have hgap := h.gapFrom pos #[]
  rwa [Array.map_empty] at hgap

theorem gap_stop (pos : Nat) : (u.gap (pos + d)).stop = (t.gap pos).stop + d := by
  rw [h.gap]
  rfl

/-! ## Tag pairs -/

/-- A gap between the parts of a pair is passed in both texts or in none. -/
theorem gapInTag (pos : Nat) :
    u.gapInTag (pos + d) = ((t.gapInTag pos).map (· + d)).mapError (Problem.moved d) := by
  rw [Text.gapInTag, Text.gapInTag, h.gap]
  cases hproblem : (t.gap pos).problem? <;> simp only [Gap.moved, hproblem] <;> rfl

/-- A value ends as much further on. -/
theorem valueStop (pos : Nat) : u.valueStop (pos + d) = t.valueStop pos + d := by
  fun_induction Text.valueStop t pos with
  | case1 pos hb =>
    have hsize := h.size_eq
    have hle := getElem?_eq_none_iff.1 hb
    exact valueStop_of_size_le (by omega)
  | case2 pos b hb hescape ih =>
    rw [valueStop_of_getElem? (h.getElem? hb), Nat.add_right_comm pos d 1, h.getElem?_eq,
      if_pos hescape, Nat.add_right_comm]
    exact ih
  | case3 pos b hb hescape hstop =>
    rw [valueStop_of_getElem? (h.getElem? hb), Nat.add_right_comm pos d 1, h.getElem?_eq,
      if_neg hescape, if_pos hstop]
  | case4 pos b hb hescape hstop ih =>
    rw [valueStop_of_getElem? (h.getElem? hb), Nat.add_right_comm pos d 1, h.getElem?_eq,
      if_neg hescape, if_neg hstop]
    exact ih

/-- The name of a pair is read alike, or fails alike. -/
theorem tagName (start : Nat) :
    u.tagName (start + d) = ((t.tagName start).map fun (name, quote) =>
      (name.moved d, quote + d)).mapError (Problem.moved d) := by
  have hsize := h.size_eq
  rw [Text.tagName, Text.tagName, Nat.add_right_comm start d 1, h.gapInTag]
  cases t.gapInTag (start + 1) with
  | error problem => rfl
  -- A name is empty or runs on in one text just when it is so in the other.
  | ok pos =>
    simp only [Except.map, mapError_ok, h.seek, h.gapInTag]
    by_cases hname : t.seek (!Byte.isName ·) pos = pos ∨
        t.seek endsTagName (t.seek (!Byte.isName ·) pos) ≠ t.seek (!Byte.isName ·) pos
    · rw [if_pos hname, if_pos (by omega)]
      simp only [mapError_error, Problem.moved, Span.moved, Except.error.injEq,
        Problem.fault.injEq, Span.mk.injEq, true_and]
      omega
    · rw [if_neg hname, if_neg (by omega)]
      cases t.gapInTag (t.seek (!Byte.isName ·) pos) <;> rfl

/-- The value of a pair is read alike, or fails alike. -/
theorem tagValue (start quote : Nat) :
    u.tagValue (start + d) (quote + d) =
      ((t.tagValue start quote).map (Span.moved d)).mapError (Problem.moved d) := by
  rw [Text.tagValue, Text.tagValue, h.getElem?_eq, Nat.add_right_comm quote d 1, h.valueStop,
    h.lineEnd]
  by_cases hquote : t[quote]? = some Byte.quote
  · simp only [if_pos hquote, h.getElem?_eq]
    by_cases hclosed : t[t.valueStop (quote + 1)]? = some Byte.quote
    · rw [if_pos hclosed, if_pos hclosed]
      rfl
    · rw [if_neg hclosed, if_neg hclosed]
      by_cases hbreak : t[t.valueStop (quote + 1)]?.all Byte.isLineBreak = true
      · rw [if_pos hbreak, if_pos hbreak]
        rfl
      · rw [if_neg hbreak, if_neg hbreak, Nat.add_right_comm]
        rfl
  · rw [if_neg hquote, if_neg hquote]
    simp only [Except.map, mapError_error, Problem.moved, Span.moved, Except.error.injEq,
      Problem.fault.injEq, Span.mk.injEq, true_and]
    omega

/-- A pair is read alike, or fails alike. -/
theorem tagPair (start : Nat) :
    u.tagPair (start + d) = ((t.tagPair start).map fun (tag, next) =>
      (tag.moved d, next + d)).mapError (Problem.moved d) := by
  rw [Text.tagPair, Text.tagPair, h.tagName]
  cases t.tagName start with
  | error problem => rfl
  | ok found =>
    obtain ⟨name, quote⟩ := found
    simp only [Except.map, mapError_ok]
    rw [h.tagValue]
    cases t.tagValue start quote with
    | error problem => rfl
    | ok value =>
      simp only [Except.map, mapError_ok, Span.moved]
      rw [Nat.add_right_comm, h.gapInTag]
      cases t.gapInTag (value.stop + 1) with
      | error problem => rfl
      | ok bracket =>
        simp only [Except.map, mapError_ok, h.getElem?_eq]
        by_cases hclose : t[bracket]? = some Byte.closeBracket
        · rw [if_pos hclose, if_pos hclose, Nat.add_right_comm]
          rfl
        · rw [if_neg hclose, if_neg hclose]
          -- Nothing is left to be matched but the bracket, at one distance from the value in both.
          rfl

/-- The same tabs are found, further on. -/
theorem tabsBetween (stop pos : Nat) (tabs : Array Problem) :
    u.tabsBetween (stop + d) (pos + d) (tabs.map (Problem.moved d)) =
      (t.tabsBetween stop pos tabs).map (Problem.moved d) := by
  fun_induction Text.tabsBetween t stop pos tabs with
  | case1 pos tabs hlt ih =>
    rw [Text.tabsBetween, if_pos (by omega), h.getElem?_eq, Nat.add_right_comm]
    by_cases htab : t[pos]?.any (· == Byte.tab) = true
    · simp only [dif_pos htab, if_pos htab, Array.map_push] at ih ⊢
      exact ih
    · simp only [dif_neg htab, if_neg htab] at ih ⊢
      exact ih
  | case2 pos tabs hge => rw [Text.tabsBetween, if_neg (by omega)]

/-- The same tabs are found in the value of a pair. -/
theorem tabsInTag (start : Nat) :
    u.tabsInTag (start + d) = (t.tabsInTag start).map (Problem.moved d) := by
  rw [Text.tabsInTag, Text.tabsInTag, h.tagName]
  cases t.tagName start with
  | error problem => rfl
  | ok found =>
    obtain ⟨name, quote⟩ := found
    simp only [Except.map, mapError_ok, h.getElem?_eq]
    by_cases hquote : t[quote]? = some Byte.quote
    · have htabs := h.tabsBetween (t.valueStop (quote + 1)) (quote + 1) #[]
      rw [Array.map_empty] at htabs
      rw [if_pos hquote, if_pos hquote, Nat.add_right_comm, h.valueStop, htabs, Array.toList_map]
    · rw [if_neg hquote, if_neg hquote]
      rfl

/-! ## Headers -/

/-- What strict reading adds to the problems in front of a pair is moved with them. -/
theorem warned (strict : Bool) (pos : Nat) (problems : Array Problem) :
    (if strict then problems.map (Problem.moved d) ++ u.tabsInTag (pos + d)
      else problems.map (Problem.moved d)) =
      (if strict then problems ++ t.tabsInTag pos else problems).map (Problem.moved d) := by
  cases strict with
  | false => rfl
  | true =>
    apply Array.ext'
    simp only [if_true, h.tabsInTag, Array.toList_appendList, Array.toList_map, List.map_append]

/-- Reading goes through the same pairs. -/
theorem headerFrom (strict : Bool) (start pos stop : Nat) (tags : Array RawTag)
    (problems : Array Problem) :
    u.headerFrom strict (start + d) (pos + d) (stop + d) (tags.map (RawTag.moved d))
        (problems.map (Problem.moved d)) =
      (t.headerFrom strict start pos stop tags problems).moved d := by
  -- One tag pair and the gap behind it at a time; what was found so far is moved along.
  fun_induction Text.headerFrom t strict start pos stop tags problems with
  | case1 pos stop tags problems hb warned tag next hpair gap ih =>
    have hpairu : u.tagPair (pos + d) = .ok (tag.moved d, next + d) := by
      rw [h.tagPair, hpair]
      rfl
    have hgap : u.gap (next + d) = gap.moved d := h.gap next
    rw [headerFrom_of_tagPair (h.getElem? hb) hpairu, hgap, h.warned, ← ih]
    cases hproblem : gap.problem? <;> simp [Gap.moved, hproblem, warned]
  | case2 pos stop tags problems hb warned problem hpair next gap ih =>
    have hpairu : u.tagPair (pos + d) = .error (problem.moved d) := by
      rw [h.tagPair, hpair]
      rfl
    have hline : u.lineEnd (pos + d) = next + d := h.lineEnd pos
    have hgap : u.gap (next + d) = gap.moved d := h.gap next
    rw [headerFrom_of_problem (h.getElem? hb) hpairu, hline, hgap, h.warned, ← ih]
    cases hproblem : gap.problem? <;> simp [Gap.moved, hproblem, warned]
  | case3 pos stop tags problems hb =>
    rw [headerFrom_of_ne (by rw [h.getElem?_eq]; exact hb), (h.upTo pos).seek]
    simp [Header.moved, Span.moved]

/-- A header is the same, further on. -/
theorem header (strict : Bool) (start : Nat) :
    u.header strict (start + d) = (t.header strict start).moved d := by
  have hheader := h.headerFrom strict start start start #[] #[]
  rwa [Array.map_empty, Array.map_empty] at hheader

/-- A bracket opens a tag in the one text if and only if it does so in the other. -/
theorem opensTag (pos : Nat) : u.opensTag (pos + d) = t.opensTag pos := by
  have hseen : Moved (t.upTo (pos + lookahead)) (u.upTo (pos + d + lookahead)) d := by
    rw [Nat.add_right_comm]
    exact h.upTo (pos + lookahead)
  rw [Text.opensTag, Text.opensTag, h.getElem?_eq]
  simp only [Nat.add_right_comm pos d 1, hseen.seek, hseen.getElem?_eq, Nat.add_lt_add_iff_right]

/-- The bytes of a span are those of the moved span. -/
theorem word (s : Span) : u.word (s.moved d) = t.word s := by
  apply List.ext_getElem?
  intro i
  rw [getElem?_word, getElem?_word, Span.moved, Nat.add_right_comm, h.getElem?_eq]
  simp only [Nat.add_lt_add_iff_right]

end Moved

end Text

end Scorebook
