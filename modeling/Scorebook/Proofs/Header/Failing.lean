import Scorebook.Proofs.Header.Growing

/-!
# Malformed pairs with less in view

A malformed pair fails again where less of the text is in view, but it need not fail in the same
way: if what is wrong with it only shows behind the end of the view, the pair seems to be wrong
there. `Text.inSight` says of each problem how much of the text it takes to come upon it again. A
pair whose problem is in sight fails with the same verdict at the same offset, provided that no name
is cut in two. That is said once for each way in which a pair can be malformed
(`Text.FailsAlike`), and then for all pairs of a header.
-/

namespace Scorebook

/-- What a problem is known by: its verdict and where it starts. -/
def Problem.identity (p : Problem) : Verdict × Option Nat :=
  (p.verdict, p.span?.map Span.start)

namespace Text

/-- Where the search for the closing bracket starts in the tag pair whose bracket is at `start`. -/
def behindValue (t : Text) (start : Nat) : Nat :=
  match t.tagName start with
  | .ok (_, quote) => t.valueStop (quote + 1) + 1
  | .error _ => start

/-- Do the bytes in front of `n` show this problem of a tag pair where it is? A name or value that
is not there is missed without a look at what stands there instead. A closing bracket is missed
where the view ends as well, unless it ends in a comment or an escaped line. -/
def inSight (t : Text) (n : Nat) (p : Problem) : Bool :=
  match p with
  | .fault .badTagName span | .fault .missingTagValue span => span.start ≤ n
  | .fault .unclosedTagValue span => span.stop ≤ n
  | .fault .unclosedTag span =>
    t.behindValue span.start ≤ n && ((t.upTo n).gap (t.behindValue span.start)).problem?.isNone
  | _ => p.span?.all (·.start < n)

variable {t : Text} {n pos start stop quote : Nat} {name value : Span} {p : UInt8 → Bool}
  {problem : Problem}

/-! ## Gaps -/

/-- A gap in a pair fails with what it leaves open. -/
theorem gapInTag_eq_error_iff :
    t.gapInTag pos = .error problem ↔ (t.gap pos).problem? = some problem := by
  unfold gapInTag
  split <;> simp_all

/-- What cannot be found cannot be found in a view either. -/
theorem not_seek_upTo_lt (hpos : pos < n) (hsize : pos < t.size)
    (h : ¬ t.seek p pos < t.size) : ¬ (t.upTo n).seek p pos < (t.upTo n).size := by
  intro hlt
  obtain ⟨c, hc, hp⟩ := match_of_seek_lt hlt
  have hlow : pos ≤ (t.upTo n).seek p pos := le_seek (by rw [size_upTo]; omega)
  have hin : (t.upTo n).seek p pos < n := by
    rw [size_upTo] at hlt
    omega
  rw [getElem?_upTo, if_pos hin] at hc
  exact h (Nat.lt_of_le_of_lt (seek_le_of_match hlow hc hp) (lt_size_of_getElem? hc))

/-- A comment that is not closed, if it starts in view, is not closed in view. -/
theorem gapFrom_upTo_of_problem {comments : Array Span}
    (h : (t.gapFrom pos comments).problem? = some problem) (hsight : t.inSight n problem = true) :
    pos < n ∧ ∃ problem', ((t.upTo n).gapFrom pos comments).problem? = some problem' ∧
      problem'.identity = problem.identity := by
  have hagree := agreeBelow_upTo t n
  -- By the recursion of `gapFrom`. It goes on behind a blank, an escaped line and a comment, which
  -- the cut leaves whole; it stops with a problem at one that is not ended, and it is not ended in
  -- the cut text either.
  fun_induction gapFrom t pos comments with
  | case1 | case8 => cases h
  | case2 pos comments b hb hblank ih =>
    obtain ⟨hlt, problem', hfound, hsame⟩ := ih h
    refine ⟨by omega, problem', ?_, hsame⟩
    rw [gapFrom_of_isBlank (hagree.getElem? hb (by omega)) hblank]
    exact hfound
  | case3 pos comments b hb hblank hescape eol heol ih =>
    have hpos : pos ≤ eol := le_lineEnd (Nat.le_of_lt (lt_size_of_getElem? hb))
    obtain ⟨hlt, problem', hfound, hsame⟩ := ih h
    have hline : (t.upTo n).lineEnd pos = eol := hagree.seek (show eol < n by omega)
    refine ⟨by omega, problem', ?_, hsame⟩
    rw [gapFrom_of_getElem? (hagree.getElem? hb (by omega)), if_neg hblank,
      hagree.atLineStart (by omega), if_pos hescape, hline,
      if_pos (hagree.lt_size (by omega) heol)]
    exact hfound
  | case4 pos comments b hb hblank hescape eol heol =>
    cases h
    have hlt : pos < n := of_decide_eq_true hsight
    have hline : ¬ (t.upTo n).lineEnd pos < (t.upTo n).size :=
      not_seek_upTo_lt hlt (lt_size_of_getElem? hb) heol
    refine ⟨hlt, .fault .unclosedEscape ⟨pos, (t.upTo n).size⟩, ?_, rfl⟩
    rw [gapFrom_of_getElem? (hagree.getElem? hb hlt), if_neg hblank,
      hagree.atLineStart (by omega), if_pos hescape, if_neg hline]
  | case5 pos comments eol hb hblank hescape ih =>
    have hpos : pos ≤ eol := le_lineEnd (Nat.le_of_lt (lt_size_of_getElem? hb))
    obtain ⟨hlt, problem', hfound, hsame⟩ := ih h
    have hline : (t.upTo n).lineEnd pos = eol := hagree.seek hlt
    refine ⟨by omega, problem', ?_, hsame⟩
    rw [gapFrom_of_getElem? (hagree.getElem? hb (by omega)), if_neg hblank,
      hagree.atLineStart (by omega), if_neg hescape, if_pos rfl, hline]
    exact hfound
  | case6 pos comments b hb hblank hescape hcomment hbrace close hclose ih =>
    have hpos : pos ≤ close := le_seek (Nat.le_of_lt (lt_size_of_getElem? hb))
    obtain ⟨hlt, problem', hfound, hsame⟩ := ih h
    have hseek : (t.upTo n).seek (· == Byte.closeBrace) pos = close :=
      hagree.seek (show close < n by omega)
    refine ⟨by omega, problem', ?_, hsame⟩
    rw [gapFrom_of_getElem? (hagree.getElem? hb (by omega)), if_neg hblank,
      hagree.atLineStart (by omega), if_neg hescape, if_neg hcomment, if_pos hbrace, hseek,
      if_pos (hagree.lt_size (by omega) hclose)]
    exact hfound
  | case7 pos comments b hb hblank hescape hcomment hbrace close hclose =>
    cases h
    have hlt : pos < n := of_decide_eq_true hsight
    have hseek : ¬ (t.upTo n).seek (· == Byte.closeBrace) pos < (t.upTo n).size :=
      not_seek_upTo_lt hlt (lt_size_of_getElem? hb) hclose
    refine ⟨hlt, .fault .unclosedComment ⟨pos, (t.upTo n).size⟩, ?_, rfl⟩
    rw [gapFrom_of_getElem? (hagree.getElem? hb hlt), if_neg hblank,
      hagree.atLineStart (by omega), if_neg hescape, if_neg hcomment, if_pos hbrace,
      if_neg hseek]

/-- A gap that is left open in sight is left open in view. -/
theorem gapInTag_upTo_of_error (h : t.gapInTag pos = .error problem)
    (hsight : t.inSight n problem = true) :
    pos < n ∧ ∃ problem', (t.upTo n).gapInTag pos = .error problem' ∧
      problem'.identity = problem.identity := by
  obtain ⟨hlt, problem', hfound, hsame⟩ :=
    gapFrom_upTo_of_problem (gapInTag_eq_error_iff.1 h) hsight
  exact ⟨hlt, problem', gapInTag_eq_error_iff.2 hfound, hsame⟩

/-- A gap that ends in view is passed there. -/
theorem gapInTag_upTo_of_ok (h : t.gapInTag pos = .ok stop) (hle : stop ≤ n) :
    (t.upTo n).gapInTag pos = .ok stop := by
  obtain ⟨hproblem, rfl⟩ := gapInTag_eq_ok_iff.1 h
  have hgap : (t.upTo n).gap pos = t.gap pos :=
    (agreeBelow_upTo t n).gapFrom_of_le hle fun _ => Nat.min_le_left ..
  rw [gapInTag_eq_ok_iff, hgap]
  exact ⟨hproblem, rfl⟩

/-! ## Pairs that fail -/

/-- There is no name at `pos`, or it is not all of its word. -/
def BadName (t : Text) (pos : Nat) : Prop :=
  t.seek (!Byte.isName ·) pos = pos ∨
    t.seek endsTagName (t.seek (!Byte.isName ·) pos) ≠ t.seek (!Byte.isName ·) pos

/-- The ways in which the tag pair whose bracket is at `start` can fail, each with its problem. -/
inductive Malformed (t : Text) (start : Nat) : Problem → Prop
  | gapBeforeName {problem : Problem} (hgap : t.gapInTag (start + 1) = .error problem) :
      Malformed t start problem
  | badName {pos : Nat} (hgap : t.gapInTag (start + 1) = .ok pos) (hbad : t.BadName pos) :
      Malformed t start (.fault .badTagName ⟨pos,
        min (max (t.seek endsTagName (t.seek (!Byte.isName ·) pos)) (pos + 1)) t.size⟩)
  | gapBehindName {pos : Nat} {problem : Problem} (hgap : t.gapInTag (start + 1) = .ok pos)
      (hgood : ¬ t.BadName pos)
      (hbehind : t.gapInTag (t.seek (!Byte.isName ·) pos) = .error problem) :
      Malformed t start problem
  | noValue {name : Span} {quote : Nat} (hname : t.tagName start = .ok (name, quote))
      (hopen : t[quote]? ≠ some Byte.quote) :
      Malformed t start (.fault .missingTagValue ⟨quote, min (t.lineEnd quote) (quote + 1)⟩)
  | openValue {name : Span} {quote : Nat} (hname : t.tagName start = .ok (name, quote))
      (hopen : t[quote]? = some Byte.quote) (hclose : t[t.valueStop (quote + 1)]? ≠ some Byte.quote)
      (hline : t[t.valueStop (quote + 1)]?.all Byte.isLineBreak = true) :
      Malformed t start (.fault .unclosedTagValue ⟨start, t.valueStop (quote + 1)⟩)
  | control {name : Span} {quote : Nat} (hname : t.tagName start = .ok (name, quote))
      (hopen : t[quote]? = some Byte.quote) (hclose : t[t.valueStop (quote + 1)]? ≠ some Byte.quote)
      (hline : ¬ t[t.valueStop (quote + 1)]?.all Byte.isLineBreak = true) :
      Malformed t start
        (.fault .controlInTagValue ⟨t.valueStop (quote + 1), t.valueStop (quote + 1) + 1⟩)
  | gapBehindValue {name value : Span} {quote : Nat} {problem : Problem}
      (hname : t.tagName start = .ok (name, quote)) (hvalue : t.tagValue start quote = .ok value)
      (hgap : t.gapInTag (value.stop + 1) = .error problem) : Malformed t start problem
  | noBracket {name value : Span} {quote stop : Nat} (hname : t.tagName start = .ok (name, quote))
      (hvalue : t.tagValue start quote = .ok value)
      (hgap : t.gapInTag (value.stop + 1) = .ok stop) (hclose : t[stop]? ≠ some Byte.closeBracket) :
      Malformed t start (.fault .unclosedTag ⟨start, stop⟩)

/-- A bad name fails where it starts, and takes at least one byte. -/
theorem tagName_of_badName (hgap : t.gapInTag (start + 1) = .ok pos) (hbad : t.BadName pos) :
    t.tagName start = .error (.fault .badTagName ⟨pos,
      min (max (t.seek endsTagName (t.seek (!Byte.isName ·) pos)) (pos + 1)) t.size⟩) := by
  simp only [tagName, hgap]
  exact if_pos hbad

/-- Behind a good name the gap may fail. -/
theorem tagName_of_gap (hgap : t.gapInTag (start + 1) = .ok pos) (hgood : ¬ t.BadName pos)
    (hbehind : t.gapInTag (t.seek (!Byte.isName ·) pos) = .error problem) :
    t.tagName start = .error problem := by
  simp only [tagName, hgap, hbehind]
  exact if_neg hgood

/-- A name fails in one of three ways. -/
theorem malformed_of_tagName (h : t.tagName start = .error problem) :
    t.Malformed start problem := by
  unfold tagName at h
  split at h
  · next hgap =>
    cases h
    exact .gapBeforeName hgap
  · next pos hgap =>
    simp only at h
    split at h
    · next hbad =>
      cases h
      exact .badName hgap hbad
    · next hgood =>
      split at h
      · next hbehind =>
        cases h
        exact .gapBehindName hgap hgood hbehind
      · cases h

/-- Reading a pair fails in exactly these ways. -/
theorem tagPair_eq_error_iff : t.tagPair start = .error problem ↔ t.Malformed start problem := by
  constructor
  · -- From the error to its cause, in the order in which the pair is read.
    intro h
    unfold tagPair at h
    split at h
    · next hname =>
      cases h
      exact malformed_of_tagName hname
    · next name quote hname =>
      split at h
      · next hvalue =>
        cases h
        unfold tagValue at hvalue
        split at hvalue
        · next hopen =>
          simp only at hvalue
          split at hvalue
          · cases hvalue
          · next hclose =>
            split at hvalue
            · next hline =>
              cases hvalue
              exact .openValue hname hopen hclose hline
            · next hline =>
              cases hvalue
              exact .control hname hopen hclose hline
        · next hopen =>
          cases hvalue
          exact .noValue hname hopen
      · next value hvalue =>
        split at h
        · next hgap =>
          cases h
          exact .gapBehindValue hname hvalue hgap
        · next bracket hgap =>
          split at h
          · cases h
          · next hclose =>
            cases h
            exact .noBracket hname hvalue hgap hclose
  · -- The causes exclude each other as the branches of the function do.
    intro h
    cases h with
    | gapBeforeName hgap => simp only [tagPair, tagName, hgap]
    | badName hgap hbad => simp only [tagPair, tagName_of_badName hgap hbad]
    | gapBehindName hgap hgood hbehind => simp only [tagPair, tagName_of_gap hgap hgood hbehind]
    | noValue hname hopen => simp only [tagPair, hname, tagValue, if_neg hopen]
    | openValue hname hopen hclose hline =>
      simp only [tagPair, hname, tagValue, if_pos hopen, if_neg hclose, if_pos hline]
    | control hname hopen hclose hline =>
      simp only [tagPair, hname, tagValue, if_pos hopen, if_neg hclose, if_neg hline]
    | gapBehindValue hname hvalue hgap => simp only [tagPair, hname, hvalue, hgap]
    | noBracket hname hvalue hgap hclose =>
      simp only [tagPair, hname, hvalue, hgap, if_neg hclose]

/-! ## The same failure in view -/

/-- No name runs across `n`: the text ends there, or the byte in front of it is in no name. -/
def CutsNoName (t : Text) (n : Nat) : Prop :=
  n = t.size ∨ n < t.size ∧ ∀ i b, i + 1 = n → t[i]? = some b → Byte.isName b = false

/-- A cut through no name is in the text. -/
theorem CutsNoName.le_size (h : t.CutsNoName n) : n ≤ t.size := by
  rcases h with rfl | ⟨hlt, -⟩
  · exact Nat.le_refl _
  · exact Nat.le_of_lt hlt

/-- A name whose quote is in view is read there. -/
theorem tagName_upTo_of_ok (h : t.tagName start = .ok (name, quote)) (hstart : start < t.size)
    (hle : quote ≤ n) : (t.upTo n).tagName start = .ok (name, quote) := by
  obtain ⟨hgap, hstop, hne, hwhole, hquote⟩ := tagName_eq_ok_iff.1 h
  have hbehind := le_of_gapInTag hquote
  have hlow : name.start ≤ name.stop := hstop ▸ le_seek (le_size_of_gapInTag hstart hgap)
  refine tagName_eq_ok_iff.2 ⟨gapInTag_upTo_of_ok hgap (by omega), ?_, hne, ?_,
    gapInTag_upTo_of_ok hquote hle⟩
  · rw [seek_upTo (by omega), hstop]
  · rw [seek_upTo (by omega), hwhole]

/-- A value whose closing quote is in view is read there. -/
theorem tagValue_upTo_of_ok (h : t.tagValue start quote = .ok value) (hlt : value.stop < n) :
    (t.upTo n).tagValue start quote = .ok value := by
  have hagree := agreeBelow_upTo t n
  obtain ⟨hopen, hstart, hstop, hclose⟩ := tagValue_eq_ok_iff.1 h
  have hlow := le_valueStop t (quote + 1)
  refine tagValue_eq_ok_iff.2 ⟨hagree.getElem? hopen (by omega), hstart, ?_,
    hagree.getElem? hclose hlt⟩
  rw [hagree.valueStop (by omega), hstop]

/-- A byte that is not there in the text is not there in view. -/
theorem getElem?_upTo_ne {b : UInt8} (h : t[pos]? ≠ some b) : (t.upTo n)[pos]? ≠ some b := by
  rw [getElem?_upTo]
  split
  · exact h
  · nofun

/-- A name that ends in view is as bad there, and where the view ends there is none. -/
theorem BadName.upTo (h : t.BadName pos) (hle : pos ≤ n) (hcut : t.CutsNoName n) :
    (t.upTo n).BadName pos := by
  have hsize : (t.upTo n).size = n := Nat.min_eq_left hcut.le_size
  -- A name that begins at the cut is empty there.
  rcases Nat.eq_or_lt_of_le hle with rfl | hlt
  · left
    rw [seek_of_size_le (Nat.le_of_eq hsize), hsize]
  -- The name ends in view.
  have hstop : t.seek (!Byte.isName ·) pos < n := by
    rcases hcut with rfl | ⟨hn, hlast⟩
    · have hle := seek_le_size t (!Byte.isName ·) pos
      rcases Nat.eq_or_lt_of_le hle with heq | hlt'
      · rw [BadName, heq, seek_of_size_le (Nat.le_refl _)] at h
        omega
      · exact hlt'
    · obtain ⟨i, rfl⟩ : ∃ i, n = i + 1 := ⟨n - 1, by omega⟩
      obtain ⟨b, hb⟩ := exists_getElem? (Nat.lt_of_succ_lt hn)
      have hle := seek_le_of_match (p := (!Byte.isName ·)) (Nat.le_of_lt_succ hlt) hb
        (by simp [hlast i b rfl hb])
      omega
  rw [BadName, seek_upTo (Nat.le_of_lt hstop)]
  refine h.imp_right fun hword => ?_
  -- What stops the name is no byte that may follow one, and it is in view.
  obtain ⟨b, hb⟩ := exists_getElem? (Nat.lt_of_lt_of_le hstop hcut.le_size)
  have hinside : endsTagName b = false := by
    cases hends : endsTagName b with
    | false => rfl
    | true => exact absurd (seek_of_match hb hends) hword
  have hseen := (agreeBelow_upTo t n).getElem? hb hstop
  have hnext : t.seek (!Byte.isName ·) pos + 1 ≤
      (t.upTo n).seek endsTagName (t.seek (!Byte.isName ·) pos + 1) :=
    le_seek (lt_size_of_getElem? hseen)
  rw [seek_of_not_match hseen hinside]
  omega

/-- What a pair has by way of tabs is the same in view if its value ends there. -/
theorem tabsInTag_upTo (hname : t.tagName start = .ok (name, quote)) (hstart : start < t.size)
    (hopen : t[quote]? = some Byte.quote) (hle : t.valueStop (quote + 1) ≤ n) :
    (t.upTo n).tabsInTag start = t.tabsInTag start := by
  have hagree := agreeBelow_upTo t n
  have hlow := le_valueStop t (quote + 1)
  have hseen := hagree.getElem? hopen (by omega)
  have hstop : (t.upTo n).valueStop (quote + 1) = t.valueStop (quote + 1) :=
    hagree.valueStop_of_le hle fun _ => Nat.min_le_left ..
  simp only [tabsInTag, tagName_upTo_of_ok hname hstart (show quote ≤ n by omega), hname, hopen,
    hseen, if_true, hstop]
  rw [hagree.tabsBetween hle]

/-- Without a name there is no value to have tabs. -/
theorem tabsInTag_of_tagName (h : t.tagName start = .error problem) : t.tabsInTag start = [] := by
  simp only [tabsInTag, h]

/-- The pair at `start` fails in view as it does in the whole text: with the same tabs in its value,
and with a problem known by the same verdict and offset. -/
def FailsAlike (t : Text) (n start : Nat) (problem : Problem) : Prop :=
  (t.upTo n).tabsInTag start = t.tabsInTag start ∧
    ∃ problem', (t.upTo n).Malformed start problem' ∧ problem'.identity = problem.identity

/-- A comment or an escaped line that is left open in front of the name is left open in view. -/
theorem failsAlike_of_gapBeforeName (hgap : t.gapInTag (start + 1) = .error problem)
    (hsight : t.inSight n problem = true) : t.FailsAlike n start problem := by
  obtain ⟨-, problem', hgap', hsame⟩ := gapInTag_upTo_of_error hgap hsight
  have hname : t.tagName start = .error problem := by simp only [tagName, hgap]
  have hname' : (t.upTo n).tagName start = .error problem' := by simp only [tagName, hgap']
  rw [FailsAlike, tabsInTag_of_tagName hname, tabsInTag_of_tagName hname']
  exact ⟨rfl, problem', .gapBeforeName hgap', hsame⟩

/-- A bad name is bad in view, where the bytes that show it may be fewer. -/
theorem failsAlike_of_badName (hgap : t.gapInTag (start + 1) = .ok pos) (hbad : t.BadName pos)
    (hle : pos ≤ n) (hcut : t.CutsNoName n) {span : Span} (hspan : span.start = pos) :
    t.FailsAlike n start (.fault .badTagName span) := by
  subst hspan
  have hgap' := gapInTag_upTo_of_ok hgap hle
  have hbad' := hbad.upTo hle hcut
  rw [FailsAlike, tabsInTag_of_tagName (tagName_of_badName hgap hbad),
    tabsInTag_of_tagName (tagName_of_badName hgap' hbad')]
  exact ⟨rfl, _, .badName hgap' hbad', rfl⟩

/-- A gap that is left open behind a good name is left open in view, and the name is as good. -/
theorem failsAlike_of_gapBehindName (hstart : start < t.size)
    (hgap : t.gapInTag (start + 1) = .ok pos) (hgood : ¬ t.BadName pos)
    (hbehind : t.gapInTag (t.seek (!Byte.isName ·) pos) = .error problem)
    (hsight : t.inSight n problem = true) : t.FailsAlike n start problem := by
  obtain ⟨hlt, problem', hbehind', hsame⟩ := gapInTag_upTo_of_error hbehind hsight
  have hlow := le_seek (p := (!Byte.isName ·)) (le_size_of_gapInTag hstart hgap)
  have hgap' := gapInTag_upTo_of_ok hgap (show pos ≤ n by omega)
  have hstop : (t.upTo n).seek (!Byte.isName ·) pos = t.seek (!Byte.isName ·) pos :=
    seek_upTo (Nat.le_of_lt hlt)
  have hgood' : ¬ (t.upTo n).BadName pos := by
    rw [BadName, not_or, Decidable.not_not] at hgood ⊢
    rw [hstop, seek_upTo (by omega)]
    exact hgood
  rw [← hstop] at hbehind'
  rw [FailsAlike, tabsInTag_of_tagName (tagName_of_gap hgap hgood hbehind),
    tabsInTag_of_tagName (tagName_of_gap hgap' hgood' hbehind')]
  exact ⟨rfl, problem', .gapBehindName hgap' hgood' hbehind', hsame⟩

/-- A quote that is not there is not there in view, even if the view ends in front of it. -/
theorem failsAlike_of_noValue (hstart : start < t.size)
    (hname : t.tagName start = .ok (name, quote)) (hopen : t[quote]? ≠ some Byte.quote)
    (hle : quote ≤ n) :
    t.FailsAlike n start
      (.fault .missingTagValue ⟨quote, min (t.lineEnd quote) (quote + 1)⟩) := by
  have hname' := tagName_upTo_of_ok hname hstart hle
  have hopen' := getElem?_upTo_ne (n := n) hopen
  refine ⟨?_, _, .noValue hname' hopen', rfl⟩
  simp only [tabsInTag, hname, hname', if_neg hopen, if_neg hopen']

/-- A value that runs to the end of its line does so in view, and one that runs to the end of the
text runs to the end of the view. -/
theorem failsAlike_of_openValue (hstart : start < t.size)
    (hname : t.tagName start = .ok (name, quote)) (hopen : t[quote]? = some Byte.quote)
    (hclose : t[t.valueStop (quote + 1)]? ≠ some Byte.quote)
    (hline : t[t.valueStop (quote + 1)]?.all Byte.isLineBreak = true)
    (hle : t.valueStop (quote + 1) ≤ n) :
    t.FailsAlike n start (.fault .unclosedTagValue ⟨start, t.valueStop (quote + 1)⟩) := by
  have hagree := agreeBelow_upTo t n
  have hend : (t.upTo n).size ≤ n := Nat.min_le_left ..
  have hlow := le_valueStop t (quote + 1)
  -- The name, the quote and the value end in front of the cut, so they are read alike.
  have hname' := tagName_upTo_of_ok hname hstart (show quote ≤ n by omega)
  have hopen' := hagree.getElem? hopen (by omega)
  have hstop : (t.upTo n).valueStop (quote + 1) = t.valueStop (quote + 1) :=
    hagree.valueStop_of_le hle fun _ => hend
  refine ⟨tabsInTag_upTo hname hstart hopen hle, _, .openValue hname' hopen' ?_ ?_, rfl⟩
  · rw [hstop]
    exact getElem?_upTo_ne hclose
  · rw [hstop, getElem?_upTo]
    split
    · exact hline
    · rfl

/-- A control character that ends a value ends it in view. -/
theorem failsAlike_of_control (hstart : start < t.size)
    (hname : t.tagName start = .ok (name, quote)) (hopen : t[quote]? = some Byte.quote)
    (hclose : t[t.valueStop (quote + 1)]? ≠ some Byte.quote)
    (hline : ¬ t[t.valueStop (quote + 1)]?.all Byte.isLineBreak = true)
    (hlt : t.valueStop (quote + 1) < n) :
    t.FailsAlike n start
      (.fault .controlInTagValue ⟨t.valueStop (quote + 1), t.valueStop (quote + 1) + 1⟩) := by
  have hagree := agreeBelow_upTo t n
  have hlow := le_valueStop t (quote + 1)
  have hname' := tagName_upTo_of_ok hname hstart (show quote ≤ n by omega)
  have hopen' := hagree.getElem? hopen (by omega)
  have hstop : (t.upTo n).valueStop (quote + 1) = t.valueStop (quote + 1) :=
    hagree.valueStop hlt
  refine ⟨tabsInTag_upTo hname hstart hopen (Nat.le_of_lt hlt), _,
    .control hname' hopen' ?_ ?_, ?_⟩
  · rw [hstop]
    exact getElem?_upTo_ne hclose
  · rwa [hstop, getElem?_upTo, if_pos hlt]
  · rw [hstop]

/-- A gap that is left open behind the value is left open in view. -/
theorem failsAlike_of_gapBehindValue (hstart : start < t.size)
    (hname : t.tagName start = .ok (name, quote)) (hvalue : t.tagValue start quote = .ok value)
    (hgap : t.gapInTag (value.stop + 1) = .error problem) (hsight : t.inSight n problem = true) :
    t.FailsAlike n start problem := by
  obtain ⟨hlt, problem', hgap', hsame⟩ := gapInTag_upTo_of_error hgap hsight
  obtain ⟨hopen, -, hstop, -⟩ := tagValue_eq_ok_iff.1 hvalue
  have hlow := le_valueStop t (quote + 1)
  have hname' := tagName_upTo_of_ok hname hstart (show quote ≤ n by omega)
  have hvalue' := tagValue_upTo_of_ok hvalue (show value.stop < n by omega)
  exact ⟨tabsInTag_upTo hname hstart hopen (by omega), problem',
    .gapBehindValue hname' hvalue' hgap', hsame⟩

/-- A closing bracket that is missing is missing in view, as long as the view does not end in a
comment or an escaped line. -/
theorem failsAlike_of_noBracket (hstart : start < t.size)
    (hname : t.tagName start = .ok (name, quote)) (hvalue : t.tagValue start quote = .ok value)
    (hgap : t.gapInTag (value.stop + 1) = .ok stop) (hclose : t[stop]? ≠ some Byte.closeBracket)
    (hsight : t.inSight n (.fault .unclosedTag ⟨start, stop⟩) = true) :
    t.FailsAlike n start (.fault .unclosedTag ⟨start, stop⟩) := by
  obtain ⟨hopen, -, hstop, -⟩ := tagValue_eq_ok_iff.1 hvalue
  have hlow := le_valueStop t (quote + 1)
  have hbehind : t.behindValue start = value.stop + 1 := by simp only [behindValue, hname, hstop]
  simp only [inSight, hbehind, Bool.and_eq_true, decide_eq_true_eq, Option.isNone_iff_eq_none]
    at hsight
  have hname' := tagName_upTo_of_ok hname hstart (show quote ≤ n by omega)
  have hvalue' := tagValue_upTo_of_ok hvalue hsight.1
  have hgap' := gapInTag_eq_ok_iff.2 ⟨hsight.2, rfl⟩
  refine ⟨tabsInTag_upTo hname hstart hopen (by omega), _, .noBracket hname' hvalue' hgap' ?_,
    rfl⟩
  -- A bracket in view would close the pair in the whole text as well.
  intro hclose'
  -- The pair begins in view, so both texts fail at it with problems that agree.
  have hseen : start < (t.upTo n).size := by
    have hname := lt_of_tagName hstart hname
    rw [size_upTo]
    omega
  obtain ⟨problem', herror⟩ := tagPair_upTo_of_error
    (tagPair_eq_error_iff.2 (.noBracket hname hvalue hgap hclose)) hseen
  simp only [tagPair, hname', hvalue', hgap', if_pos hclose'] at herror
  cases herror

/-- A malformed pair fails in the same way in any view that shows its problem. -/
theorem Malformed.upTo (h : t.Malformed start problem) (hstart : start < t.size)
    (hsight : t.inSight n problem = true) (hcut : t.CutsNoName n) :
    (t.upTo n).tabsInTag start = t.tabsInTag start ∧
      ∃ problem', (t.upTo n).tagPair start = .error problem' ∧
        problem'.identity = problem.identity := by
  simp only [tagPair_eq_error_iff]
  -- The name and the value are read alike where the problem is in sight; each cause then recurs.
  cases h with
  | gapBeforeName hgap => exact failsAlike_of_gapBeforeName hgap hsight
  | badName hgap hbad =>
    exact failsAlike_of_badName hgap hbad (of_decide_eq_true hsight) hcut rfl
  | gapBehindName hgap hgood hbehind =>
    exact failsAlike_of_gapBehindName hstart hgap hgood hbehind hsight
  | noValue hname hopen =>
    exact failsAlike_of_noValue hstart hname hopen (of_decide_eq_true hsight)
  | openValue hname hopen hclose hline =>
    exact failsAlike_of_openValue hstart hname hopen hclose hline (of_decide_eq_true hsight)
  | control hname hopen hclose hline =>
    exact failsAlike_of_control hstart hname hopen hclose hline (of_decide_eq_true hsight)
  | gapBehindValue hname hvalue hgap =>
    exact failsAlike_of_gapBehindValue hstart hname hvalue hgap hsight
  | noBracket hname hvalue hgap hclose =>
    exact failsAlike_of_noBracket hstart hname hvalue hgap hclose hsight

/-! ## Where a header ends -/

/-- A tag pair may end at `pos`: behind its bracket, or where its line ends. -/
def EndsPair (t : Text) (pos : Nat) : Prop :=
  (∃ i, pos = i + 1 ∧ t[i]? = some Byte.closeBracket) ∨ t[pos]? = some Byte.newline ∨
    t.size ≤ pos

/-- A pair that is read ends behind its bracket. -/
theorem EndsPair.of_tagPair {tag : RawTag} {next : Nat} (h : t.tagPair start = .ok (tag, next)) :
    t.EndsPair next := by
  obtain ⟨quote, bracket, hpair, rfl⟩ := tagPair_eq_ok_iff.1 h
  exact .inl ⟨bracket, rfl, hpair.close⟩

/-- The line of a pair that fails ends as a pair may. -/
theorem EndsPair.lineEnd (t : Text) (pos : Nat) : t.EndsPair (t.lineEnd pos) := by
  rcases Nat.lt_or_ge (t.lineEnd pos) t.size with hlt | hge
  · exact .inr (.inl (getElem?_lineEnd hlt))
  · exact .inr (.inr hge)

/-- A header ends where its last pair does. -/
theorem headerFrom_endsPair {strict : Bool} (tags : Array RawTag) (problems : Array Problem)
    (hstop : t[pos]? ≠ some Byte.openBracket → t.EndsPair stop) :
    t.EndsPair (t.headerFrom strict start pos stop tags problems).span.stop := by
  fun_induction headerFrom t strict start pos stop tags problems with
  | case1 pos stop tags problems hb warned tag next hpair gap ih =>
    exact ih fun _ => .of_tagPair hpair
  | case2 pos stop tags problems hb warned problem hpair next gap ih =>
    exact ih fun _ => .lineEnd t pos
  | case3 pos stop tags problems hb => exact hstop hb

/-- No name runs into the movetext. -/
theorem cutsNoName_movetext (strict : Bool) (hb : t[start]? = some Byte.openBracket) :
    t.CutsNoName (t.header strict start).movetext := by
  have hextent := header_extent strict hb
  have hends : t.EndsPair (t.header strict start).span.stop :=
    headerFrom_endsPair #[] #[] fun hne => absurd hb hne
  generalize t.header strict start = h at hextent hends
  have hlow := hextent.stop_le_movetext
  have hle := Nat.le_trans hextent.movetext_le_next hextent.next_le
  rcases Nat.eq_or_lt_of_le hle with hend | hlt
  · -- The header reaches to the end of the text, or a byte follows it.
    exact .inl hend
  refine .inr ⟨hlt, fun i b hi hbyte => ?_⟩
  rcases Nat.eq_or_lt_of_le hlow with hsame | hbehind
  · -- Nothing is between the pair and the movetext, so the pair has not ended with its line.
    rcases hends with ⟨j, hj, hclose⟩ | hfeed | hover
    · obtain rfl : i = j := by omega
      rw [hclose] at hbyte
      cases hbyte
      decide
    · have hin : h.movetext < h.next := by
        rcases Nat.eq_or_lt_of_le hextent.movetext_le_next with heq | hlt
        · have hgap := inGap_gap_stop t h.span.stop
          rw [hextent.gap_stop, ← heq, ← hsame, inGap_of_getElem? hfeed] at hgap
          cases hgap
        · exact hlt
      have hfound : (t.upTo h.next).seek (!Byte.isBlank ·) h.span.stop < (t.upTo h.next).size := by
        rw [← hextent.movetext_eq, size_upTo]
        omega
      obtain ⟨c, hc, hplain⟩ := match_of_seek_lt hfound
      rw [← hextent.movetext_eq, getElem?_upTo, if_pos hin, ← hsame, hfeed] at hc
      cases hc
      cases hplain
    · -- The pair does not end behind the text.
      omega
  · have hblank := hextent.blank (i := i) (by omega) (by omega)
    -- Between the pair and the movetext are blanks, of which no name is made.
    rw [hbyte, Option.any_some] at hblank
    cases hname : Byte.isName b with
    | false => rfl
    | true =>
      rw [(Byte.plain_of_isName hname).2.1] at hblank
      cases hblank

/-! ## Headers -/

variable {strict : Bool}

/-- Two headers, the second read with `n` bytes in view, tell alike of the pairs behind those that
`before` and `before'` are about: if the view shows all that the first one has found, the second
has found the same. The first one also has the problem of the gap behind it. -/
def TellAlike (t : Text) (n : Nat) (h h' : Header) (before before' : Array Problem) : Prop :=
  ∃ found found' : List Problem,
    h.problems = before.toList ++ found ++ (t.gap h.span.stop).problem?.toList ∧
    h'.problems = before'.toList ++ found' ∧
    ((∀ p ∈ found, t.inSight n p = true) →
      found'.map Problem.identity = found.map Problem.identity)

/-- What one pair adds on both sides counts among what is found, if it is alike where it is in
sight. -/
theorem TellAlike.of_append {h h' : Header} {before before' : Array Problem}
    {more more' : List Problem} (halike : t.TellAlike n h h' (before ++ more) (before' ++ more'))
    (hmore : (∀ p ∈ more, t.inSight n p = true) →
      more'.map Problem.identity = more.map Problem.identity) :
    t.TellAlike n h h' before before' := by
  obtain ⟨found, found', hfound, hfound', hident⟩ := halike
  refine ⟨more ++ found, more' ++ found', ?_, ?_, fun hsight => ?_⟩
  · rw [hfound, Array.toList_appendList, List.append_assoc before.toList]
  · rw [hfound', Array.toList_appendList, List.append_assoc]
  · rw [List.map_append, List.map_append, hmore fun p hp => hsight p (List.mem_append_left _ hp),
      hident fun p hp => hsight p (List.mem_append_right _ hp)]

/-- What is told of a pair in strict reading only. -/
def strictly (strict : Bool) (tabs : List Problem) : List Problem :=
  if strict then tabs else []

/-- In strict reading the tabs are told of behind what was told before. -/
theorem append_strictly (strict : Bool) (problems : Array Problem) (tabs : List Problem) :
    (if strict then problems ++ tabs else problems) = problems ++ strictly strict tabs := by
  unfold strictly
  split
  · rfl
  · rw [Array.appendList_nil]

/-- A gap that is never closed reaches to the end, so none is found in front of a pair. -/
theorem gap_problem?_of_openBracket (hgap : (t.gap stop).stop = pos)
    (hb : t[pos]? = some Byte.openBracket) : (t.gap stop).problem? = none :=
  gap_problem?_of_stop_lt (hgap ▸ lt_size_of_getElem? hb)

/-- A pair that is read is read in view, with what is told of it. -/
theorem headerFrom_upTo_of_tagPair {tag : RawTag} {next : Nat} {before : Array Problem}
    (hb : t[pos]? = some Byte.openBracket) (hpair : t.tagPair pos = .ok (tag, next))
    (hgap : (t.gap stop).stop = pos) (hin : next ≤ n) (tags : Array RawTag) :
    (t.upTo n).headerFrom strict start ((t.upTo n).gap stop).stop stop tags
        (before ++ ((t.upTo n).gap stop).problem?.toList) =
      (t.upTo n).headerFrom strict start ((t.upTo n).gap next).stop next (tags.push tag)
        (before ++ strictly strict (t.tabsInTag pos) ++
          ((t.upTo n).gap next).problem?.toList) := by
  have hagree := agreeBelow_upTo t n
  have hlt := lt_size_of_getElem? hb
  have hnext : pos < next := lt_of_tagPair hlt hpair
  have hsame : ((t.upTo n).gap stop).stop = pos := by rw [hagree.gap (by omega), hgap]
  have hbn := hagree.getElem? hb (by omega)
  rw [hsame, headerFrom_of_tagPair hbn (tagPair_upTo_of_ok hpair hlt hin), append_strictly,
    hagree.tabsInTag hpair hlt hin, gap_problem?_of_openBracket hsame hbn, Option.toList_none,
    Array.appendList_nil]

/-- A pair that fails fails in view, with what is told of it there, and reading goes on in the same
place. -/
theorem headerFrom_upTo_of_problem {problem' : Problem} {before : Array Problem}
    (hb : t[pos]? = some Byte.openBracket) (hpair : (t.upTo n).tagPair pos = .error problem')
    (hgap : (t.gap stop).stop = pos) (hin : t.lineEnd pos ≤ n) (tags : Array RawTag) :
    (t.upTo n).headerFrom strict start ((t.upTo n).gap stop).stop stop tags
        (before ++ ((t.upTo n).gap stop).problem?.toList) =
      (t.upTo n).headerFrom strict start ((t.upTo n).gap (t.lineEnd pos)).stop (t.lineEnd pos) tags
        (before ++ (strictly strict ((t.upTo n).tabsInTag pos) ++ [problem']) ++
          ((t.upTo n).gap (t.lineEnd pos)).problem?.toList) := by
  have hagree := agreeBelow_upTo t n
  have hnext : pos < t.lineEnd pos := lt_lineEnd hb (by decide)
  have hsame : ((t.upTo n).gap stop).stop = pos := by rw [hagree.gap (by omega), hgap]
  have hbn := hagree.getElem? hb (by omega)
  have hline : (t.upTo n).lineEnd pos = t.lineEnd pos := seek_upTo hin
  rw [hsame, headerFrom_of_problem hbn hpair, hline, gap_problem?_of_openBracket hsame hbn,
    Option.toList_none, Array.appendList_nil, append_strictly]
  congr 1
  apply Array.ext'
  simp only [Array.toList_appendList, List.append_assoc, List.singleton_append]

/-- The pairs behind `stop` have the same problems in any view that ends behind the last of them, in
front of the movetext, and shows all of the problems. -/
theorem headerFrom_problems_upTo (tags : Array RawTag) {problems : Array Problem}
    (before before' : Array Problem) (hcut : t.CutsNoName n) (hpos : pos ≤ t.size)
    (hgap : (t.gap stop).stop = pos)
    (hbefore : problems = before ++ (t.gap stop).problem?.toList)
    (hle : (t.headerFrom strict start pos stop tags problems).span.stop ≤ n)
    (hblank : ∀ i, (t.headerFrom strict start pos stop tags problems).span.stop ≤ i → i < n →
      t[i]?.any Byte.isBlank = true) :
    t.TellAlike n (t.headerFrom strict start pos stop tags problems)
      ((t.upTo n).headerFrom strict start ((t.upTo n).gap stop).stop stop tags
        (before' ++ ((t.upTo n).gap stop).problem?.toList)) before before' := by
  -- By the recursion of the header, with what was found so far split off on both sides.
  fun_induction headerFrom t strict start pos stop tags problems generalizing before before' with
  | case1 pos stop tags problems hb warned tag next hpair gap ih =>
    have hgapnext : gap.stop ≤ t.size := gap_stop_le (le_size_of_tagPair hpair)
    have hin : next ≤ n := Nat.le_trans (headerFrom_extent _ _ rfl hgapnext).2 hle
    have hwarned : warned = before ++ strictly strict (t.tabsInTag pos) := by
      rw [gap_problem?_of_openBracket hgap hb, Option.toList_none, Array.appendList_nil] at hbefore
      rw [← hbefore]
      exact append_strictly ..
    rw [headerFrom_upTo_of_tagPair hb hpair hgap hin]
    have halike := ih (before ++ strictly strict (t.tabsInTag pos))
      -- A whole pair is read alike, up to the tabs that are noted in it.
      (before' ++ strictly strict (t.tabsInTag pos)) hgapnext rfl (by rw [hwarned]) hle hblank
    exact halike.of_append fun _ => rfl
  | case2 pos stop tags problems hb warned problem hpair next gap ih =>
    have hlt := lt_size_of_getElem? hb
    have hnext : pos < next := lt_lineEnd hb (by decide)
    have hgapnext : gap.stop ≤ t.size := gap_stop_le (lineEnd_le_size t pos)
    have hin : next ≤ n := Nat.le_trans (headerFrom_extent _ _ rfl hgapnext).2 hle
    have hwarned : warned = before ++ strictly strict (t.tabsInTag pos) := by
      rw [gap_problem?_of_openBracket hgap hb, Option.toList_none, Array.appendList_nil] at hbefore
      rw [← hbefore]
      exact append_strictly ..
    -- Another problem may be found in view, but only if this one is out of sight.
    have hbn := (agreeBelow_upTo t n).getElem? hb (by omega)
    obtain ⟨problem', hpair'⟩ := tagPair_upTo_of_error hpair (lt_size_of_getElem? hbn)
    rw [headerFrom_upTo_of_problem hb hpair' hgap hin]
    have halike := ih (before ++ (strictly strict (t.tabsInTag pos) ++ [problem]))
      (before' ++ (strictly strict ((t.upTo n).tabsInTag pos) ++ [problem'])) hgapnext rfl
      (by rw [hwarned]; apply Array.ext'; simp [gap]) hle hblank
    refine halike.of_append fun hsight => ?_
    obtain ⟨htabs, problem'', hpair'', hproblem⟩ := (tagPair_eq_error_iff.1 hpair).upTo hlt
      (hsight problem (List.mem_append_right _ (List.mem_singleton_self problem))) hcut
    obtain rfl : problem' = problem'' := Except.error.inj (hpair'.symm.trans hpair'')
    rw [htabs, List.map_append, List.map_append, List.map_singleton, List.map_singleton, hproblem]
  -- Behind the last pair nothing is found but the problem of the gap, which stands apart.
  | case3 pos stop tags problems hb =>
    rw [headerFrom_of_ne (getElem?_gap_upTo_of_blanks hle hblank), hbefore]
    refine ⟨[], [], ?_, ?_, fun _ => rfl⟩
    · rw [Array.toList_appendList, List.append_nil]
    · rw [gap_upTo_of_blanks hle hblank]
      simp

/-- Reading a header again from the text in front of its movetext finds what was wrong with its
pairs, if all of that is in sight. Besides that a header has the problem of the gap behind it. -/
theorem header_problems_upTo (strict : Bool) (hb : t[start]? = some Byte.openBracket) :
    ∃ found : List Problem,
      (t.header strict start).problems =
        found ++ (t.gap (t.header strict start).span.stop).problem?.toList ∧
      ((∀ p ∈ found, t.inSight (t.header strict start).movetext p = true) →
        ((t.upTo (t.header strict start).movetext).header strict start).problems.map
            Problem.identity =
          found.map Problem.identity) := by
  have hextent := header_extent strict hb
  have hgap : t.gap start = ⟨start, #[], none⟩ := gap_of_openBracket hb
  have hstart := lt_header_span_stop strict hb
  have hbn : (t.upTo (t.header strict start).movetext)[start]? = some Byte.openBracket :=
    (agreeBelow_upTo t _).getElem? hb (Nat.lt_of_lt_of_le hstart hextent.stop_le_movetext)
  -- The header begins with a pair, so no gap comes before it.
  obtain ⟨found, found', hfound, hfound', hident⟩ := headerFrom_problems_upTo #[] #[] #[]
    (cutsNoName_movetext strict hb) (Nat.le_of_lt (lt_size_of_getElem? hb)) (by rw [hgap])
    (by rw [hgap]; rfl) hextent.stop_le_movetext fun i hi hlt => hextent.blank hi hlt
  rw [gap_of_openBracket hbn] at hfound'
  refine ⟨found, hfound, fun hsight => ?_⟩
  rw [← hident hsight]
  exact congrArg (List.map Problem.identity) hfound'

end Text

end Scorebook
