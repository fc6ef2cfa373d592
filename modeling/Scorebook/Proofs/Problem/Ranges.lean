import Scorebook.Proofs.Catalogue.Extents
import Scorebook.Proofs.Header.Failing
import Scorebook.Proofs.Strictness.Ordinary

/-!
# Problems point into their text

A problem carries the ranges it is about, and whoever shows it cuts them out of the text. They start
before they end and end inside the text, be the problem one of a gap that is never ended, of a tag
pair, of text between games or of movetext, and also if the text was cut off where it was found.
-/

namespace Scorebook

/-- The range lies in the text. -/
def Text.Covers (t : Text) (s : Span) : Prop :=
  s.start ≤ s.stop ∧ s.stop ≤ t.size

instance (t : Text) (s : Span) : Decidable (t.Covers s) :=
  inferInstanceAs (Decidable (_ ∧ _))

namespace Problem

/-- All ranges a problem carries. -/
def spans : Problem → List Span
  | fault _ span | gameOutOfRange _ span | hashMismatch _ span => [span]
  | tokensAfterTermination marker extra => [marker, extra]
  | io _ => []

/-- All ranges of the problem lie in the text. -/
def PointsInto (p : Problem) (t : Text) : Prop :=
  ∀ span ∈ p.spans, t.Covers span

instance (p : Problem) (t : Text) : Decidable (p.PointsInto t) :=
  inferInstanceAs (Decidable (∀ span ∈ p.spans, t.Covers span))

variable {t : Text} {n start stop : Nat} {p : Problem}

/-- A fault in the text points into it. -/
theorem pointsInto_fault (kind : Fault) (hle : start ≤ stop) (hsize : stop ≤ t.size) :
    (fault kind ⟨start, stop⟩).PointsInto t :=
  List.forall_mem_singleton.2 ⟨hle, hsize⟩

/-- What points into the front of a text points into the text. -/
theorem PointsInto.of_upTo (h : p.PointsInto (t.upTo n)) : p.PointsInto t :=
  fun span hspan => ⟨(h span hspan).1, Nat.le_trans (h span hspan).2 (Nat.min_le_right ..)⟩

end Problem

namespace Text

variable {t : Text} {strict : Bool} {pos start stop : Nat} {p : Problem}

/-! ## Gaps -/

/-- What a gap leaves open reaches from its opening to the end of the text. -/
theorem pointsInto_of_gapFrom {comments : Array Span}
    (h : (t.gapFrom pos comments).problem? = some p) : p.PointsInto t := by
  fun_induction gapFrom t pos comments with
  | case1 | case8 => cases h
  | case4 _ _ _ hb | case7 _ _ _ hb =>
    cases h
    exact Problem.pointsInto_fault _ (Nat.le_of_lt (lt_size_of_getElem? hb)) (Nat.le_refl _)
  | case2 _ _ _ _ _ ih => exact ih h
  | case3 _ _ _ _ _ _ _ _ ih => exact ih h
  | case5 _ _ _ _ _ _ ih => exact ih h
  | case6 _ _ _ _ _ _ _ _ _ _ ih => exact ih h

/-- The problem of a gap points into the text. -/
theorem pointsInto_of_gap (h : (t.gap pos).problem? = some p) : p.PointsInto t :=
  pointsInto_of_gapFrom h

/-- The comments of a gap lie in the text. -/
theorem covers_of_mem_gapFrom_comments {comments : Array Span}
    (h : ∀ body ∈ comments, t.Covers body) :
    ∀ body ∈ (t.gapFrom pos comments).comments, t.Covers body := by
  have hpush {comments : Array Span} {body : Span} (h : ∀ body ∈ comments, t.Covers body)
      (hbody : t.Covers body) : ∀ body' ∈ comments.push body, t.Covers body' := by
    intro body' hmem
    rcases Array.mem_push.1 hmem with hold | rfl
    · exact h body' hold
    · exact hbody
  -- Along the recursion of the scanner; what is pushed lies between two bytes that were seen.
  fun_induction gapFrom t pos comments with
  | case1 | case4 | case8 => exact h
  | case2 _ _ _ _ _ ih => exact ih h
  | case3 _ _ _ _ _ _ _ _ ih => exact ih h
  | case5 pos comments eol hb hblank hescape ih =>
    have hlt : pos < eol := lt_lineEnd hb (by decide)
    exact ih (hpush h ⟨hlt, seek_le_size ..⟩)
  | case6 pos comments b hb hblank hescape hsemicolon hbrace close hclose ih =>
    -- The brace that is found is not the one that was looked from.
    have hlt : pos < close := lt_seek hb (by rw [beq_iff_eq.1 hbrace]; rfl)
    exact ih (hpush h ⟨hlt, Nat.le_of_lt hclose⟩)
  | case7 pos comments b hb =>
    exact hpush h ⟨lt_size_of_getElem? hb, Nat.le_refl _⟩

/-- The comments of a gap lie in the text. -/
theorem covers_of_mem_comments {body : Span} (h : body ∈ (t.gap pos).comments) : t.Covers body :=
  covers_of_mem_gapFrom_comments (fun _ hnone => absurd hnone (Array.not_mem_empty _)) body h

/-! ## Headers -/

/-- A value ends in the text. -/
theorem valueStop_le_size (hpos : pos ≤ t.size) : t.valueStop pos ≤ t.size := by
  fun_induction valueStop t pos with
  | case1 pos hnone => exact hpos
  | case2 pos b hb hescape ih =>
    -- An escape is two bytes long, and both of them are there.
    obtain ⟨-, hescapable⟩ := Bool.and_eq_true_iff.1 hescape
    obtain ⟨c, hc, -⟩ := (Option.any_eq_true ..).1 hescapable
    exact ih (lt_size_of_getElem? hc)
  | case3 pos b hb hescape hstop => exact hpos
  | case4 pos b hb hescape hstop ih => exact ih (lt_size_of_getElem? hb)

/-- The problem of a gap in a pair points into the text. -/
theorem pointsInto_of_gapInTag (h : t.gapInTag pos = .error p) : p.PointsInto t := by
  unfold gapInTag at h
  split at h
  · next found hfound =>
    cases h
    exact pointsInto_of_gap hfound
  · cases h

/-- A name that is read leads to an offset of the text. -/
theorem le_size_of_tagName {name : Span} {quote : Nat} (h : t.tagName start = .ok (name, quote)) :
    quote ≤ t.size := by
  obtain ⟨-, hstop, -, -, hquote⟩ := tagName_eq_ok_iff.1 h
  exact le_size_of_gapInTag (hstop ▸ seek_le_size ..) hquote

/-- A tag pair fails at a place inside the text. -/
theorem pointsInto_of_malformed (hstart : start < t.size) (h : t.Malformed start p) :
    p.PointsInto t := by
  cases h with
  | gapBeforeName hgap | gapBehindName _ _ hgap | gapBehindValue _ _ hgap =>
    exact pointsInto_of_gapInTag hgap
  | @badName pos hgap hbad =>
    have hpos := le_size_of_gapInTag hstart hgap
    exact Problem.pointsInto_fault _ (by omega) (Nat.min_le_right ..)
  | @noValue name quote hname hopen =>
    have hquote := le_lineEnd (le_size_of_tagName hname)
    exact Problem.pointsInto_fault _ (by omega)
      (Nat.le_trans (Nat.min_le_left ..) (lineEnd_le_size ..))
  | @openValue name quote hname hopen hclose hline =>
    have hquote := lt_of_tagName hstart hname
    have hstop := le_valueStop t (quote + 1)
    exact Problem.pointsInto_fault _ (by omega) (valueStop_le_size (lt_size_of_getElem? hopen))
  | @control name quote hname hopen hclose hline =>
    -- There is a byte where the value stops, or its line would have ended.
    cases hb : t[t.valueStop (quote + 1)]? with
    | none => exact absurd (hb ▸ rfl) hline
    | some b => exact Problem.pointsInto_fault _ (Nat.le_succ _) (lt_size_of_getElem? hb)
  | @noBracket name value quote stop hname hvalue hgap hclose =>
    have hquote := lt_of_tagName hstart hname
    obtain ⟨-, -, hstop, hquoted⟩ := tagValue_eq_ok_iff.1 hvalue
    have hvstop := le_valueStop t (quote + 1)
    have hle := le_of_gapInTag hgap
    exact Problem.pointsInto_fault _ (by omega)
      (le_size_of_gapInTag (lt_size_of_getElem? hquoted) hgap)

/-- The problem of a pair points into the text. -/
theorem pointsInto_of_tagPair (hb : t[pos]? = some Byte.openBracket)
    (h : t.tagPair pos = .error p) : p.PointsInto t :=
  pointsInto_of_malformed (lt_size_of_getElem? hb) (tagPair_eq_error_iff.1 h)

/-- A tab that is advised against is in the text. -/
theorem pointsInto_of_tabsInTag (h : p ∈ t.tabsInTag start) : p.PointsInto t := by
  obtain ⟨i, rfl, htab⟩ := of_mem_tabsInTag h
  exact Problem.pointsInto_fault _ (Nat.le_succ i) (lt_size_of_getElem? htab)

/-- All problems of a header point into the text. -/
theorem pointsInto_of_header (h : p ∈ (t.header strict start).problems) : p.PointsInto t :=
  forall_headerFrom (fun _ _ => pointsInto_of_tagPair) (fun _ _ => pointsInto_of_gap)
    (fun _ _ => pointsInto_of_tabsInTag) (List.forall_mem_nil _) p h

/-! ## Items -/

/-- The next game is looked for up to the end of the text. -/
theorem resync_le_size (t : Text) (pos : Nat) : t.resync pos ≤ t.size := by
  fun_induction resync t pos with
  | case1 pos hlt hfound => exact Nat.le_of_lt hlt
  | case2 pos hlt hfound ih => exact ih
  | case3 pos hge => exact Nat.le_refl _

/-- All problems of what comes next point into the text. -/
theorem pointsInto_of_itemAt (h : p ∈ (t.itemAt strict pos).2) : p.PointsInto t := by
  unfold itemAt at h
  split at h
  · cases h
  · next b hb =>
    split at h
    · exact forall_scanGame strict (fun _ _ => pointsInto_of_tagPair)
        (fun _ _ => pointsInto_of_gap) (fun _ _ => pointsInto_of_tabsInTag) pos p h
    · -- It is reported no further than the scan goes on from.
      obtain rfl := List.mem_singleton.1 h
      have hlt := lt_size_of_getElem? hb
      have hline := le_lineEnd (Nat.le_of_lt hlt)
      have hresync := lt_resync hlt
      exact Problem.pointsInto_fault _ (by omega)
        (Nat.le_trans (Nat.min_le_right ..) (resync_le_size ..))

/-- What a scan reports lies in the text, wherever it starts. -/
theorem pointsInto_of_nextItem (h : p ∈ (t.nextItem strict pos).2) : p.PointsInto t := by
  rcases List.mem_append.1 h with hgap | hitem
  · exact pointsInto_of_gap (Option.mem_toList.1 hgap)
  · exact pointsInto_of_itemAt hitem

/-! ## Movetext -/

/-- What is found in movetext lies in the text, if the movetext does. -/
theorem pointsInto_of_score {s : Span} (hs : s.stop ≤ t.size)
    (h : p ∈ (t.score strict s).problems) : p.PointsInto t := by
  have hlaid := laidOut_lexemes t s
  have hplace {token : Token} {span : Span} (hmem : .token token span ∈ t.lexemes s) :
      span.start < span.stop ∧ span.stop ≤ t.size := by
    obtain ⟨-, hlt, hstop⟩ := hlaid.of_mem hmem
    exact ⟨hlt, Nat.le_trans hstop hs⟩
  -- A problem is that of a gap, of a token, or of the end of the movetext.
  have hnone : (Reader.start s.start).OpenedBy [] := nofun
  have hsub := Reader.taken_subset true (Reader.start s.start) (t.lexemes s)
  rcases Reader.notes_pass hnone h with hbefore | hnotes | ⟨-, hsplit⟩
  · exact absurd hbefore (Array.not_mem_empty _)
  · cases hnotes with
    | openEnd hmem =>
      obtain ⟨from_, -, hgap⟩ := exists_gap_of_openEnd (hsub hmem)
      exact (pointsInto_of_gap hgap).of_upTo
    | token hmem hkind =>
      obtain ⟨hlt, hstop⟩ := hplace (hsub hmem)
      exact Problem.pointsInto_fault _ (Nat.le_of_lt hlt) hstop
    | unmatched hmem => exact Problem.pointsInto_fault _ (Nat.sub_le ..) (hplace (hsub hmem)).2
    | missing => exact Problem.pointsInto_fault _ (Nat.le_refl _) hs
  · obtain ⟨before, outcome, marker, rest, extra, -, hlexemes, hextra, rfl⟩ := hsplit
    obtain ⟨token, hmem⟩ := Reader.mem_of_firstToken? hextra
    have hmarker : .token (.marker outcome) marker ∈ t.lexemes s := by
      rw [hlexemes]
      exact List.mem_append_right _ List.mem_cons_self
    have hbehind : .token token extra ∈ t.lexemes s := by
      rw [hlexemes]
      exact List.mem_append_right _ (List.mem_cons_of_mem _ hmem)
    obtain ⟨hlt, hstop⟩ := hplace hmarker
    obtain ⟨-, hfirst, hlast⟩ := hlaid.of_mem hbehind
    -- Tokens behind the marker are reported from the first of them to the end.
    exact List.forall_mem_cons.2 ⟨⟨Nat.le_of_lt hlt, hstop⟩,
      List.forall_mem_singleton.2 ⟨Nat.le_of_lt (Nat.lt_of_lt_of_le hfirst hlast), hs⟩⟩

end Text

end Scorebook
