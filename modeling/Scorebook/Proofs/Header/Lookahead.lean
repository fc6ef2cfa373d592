import Scorebook.Proofs.Catalogue.Tiling

/-!
# The lookahead and the pairs it finds

Two readers know what a tag pair looks like. The one reads pairs, with any gap between their parts;
the other only has to tell a header from movetext, and looks for a bracket, a name and a quote with
spaces and tabs between them, at least one of them in front of the quote, in the next few bytes. So
there are pairs the lookahead does not know: `[A"b"]`, a comment behind the bracket, a very long
name. Where it is asked about a pair it says yes exactly to the plainly spelled ones, and those are
what no movetext can hide.
-/

namespace Scorebook.Text

variable {t : Text} {p : UInt8 → Bool} {pos i name stop quote bracket next : Nat} {tag : RawTag}

/-! ## What the lookahead finds -/

/-- What the lookahead looks for: a name and a quote behind the bracket at `pos`. -/
structure Lookahead (t : Text) (pos name stop quote : Nat) : Prop where
  opening : t[pos]? = some Byte.openBracket
  pos_lt : pos < name
  name_lt : name < stop
  stop_lt : stop < quote
  quote_lt : quote < pos + lookahead
  before_name : ∀ i, pos < i → i < name → t[i]?.any isInlineBlank = true
  isName : ∀ i, name ≤ i → i < stop → t[i]?.any Byte.isName = true
  before_quote : ∀ i, stop ≤ i → i < quote → t[i]?.any isInlineBlank = true
  closing : t[quote]? = some Byte.quote

/-- A blank within a line is a blank, and in no name. -/
theorem isBlank_of_isInlineBlank {b : UInt8} (h : isInlineBlank b = true) :
    Byte.isBlank b = true ∧ Byte.isName b = false := by
  simp only [isInlineBlank, Bool.or_eq_true, beq_iff_eq] at h
  rcases h with rfl | rfl <;> exact ⟨rfl, rfl⟩

/-- What a search runs through. -/
theorem any_of_lt_seek {q : UInt8 → Bool} (hi : pos ≤ i) (hlt : i < t.seek (!q ·) pos) :
    t[i]?.any q = true := by
  obtain ⟨c, hc⟩ := exists_getElem? (Nat.lt_of_lt_of_le hlt (seek_le_size t (!q ·) pos))
  have hnot := not_of_lt_seek hi hlt hc
  simpa [hc] using hnot

/-- A search that runs through some bytes stops behind them. -/
theorem seek_of_any {q : UInt8 → Bool} {b : UInt8} (hle : pos ≤ stop)
    (hrun : ∀ i, pos ≤ i → i < stop → t[i]?.any q = true) (hb : t[stop]? = some b)
    (hq : q b = false) : t.seek (!q ·) pos = stop := by
  refine seek_eq hle hb (by simp [hq]) ?_
  intro i c hi hlt hc
  have hin := hrun i hi hlt
  rw [hc, Option.any_some] at hin
  simp [hin]

/-- A byte that has a property is there. -/
theorem exists_of_any {q : UInt8 → Bool} (h : t[i]?.any q = true) :
    ∃ b, t[i]? = some b ∧ q b = true :=
  (Option.any_eq_true ..).1 h

namespace Lookahead

variable (h : t.Lookahead pos name stop quote)

include h

/-- The name starts with a name byte. -/
theorem exists_name : ∃ b, t[name]? = some b ∧ Byte.isName b = true :=
  exists_of_any (h.isName name (Nat.le_refl _) h.name_lt)

/-- The name is followed by a blank. -/
theorem exists_stop : ∃ b, t[stop]? = some b ∧ isInlineBlank b = true :=
  exists_of_any (h.before_quote stop (Nat.le_refl _) h.stop_lt)

/-- It is found within reach. -/
theorem upTo : (t.upTo (pos + lookahead)).Lookahead pos name stop quote := by
  have hpos := h.pos_lt
  have hname := h.name_lt
  have hstop := h.stop_lt
  have hquote := h.quote_lt
  have hseen (i : Nat) (hi : i ≤ quote) : (t.upTo (pos + lookahead))[i]? = t[i]? := by
    rw [getElem?_upTo, if_pos (by omega)]
  exact {
    opening := by rw [hseen pos (by omega), h.opening]
    pos_lt := hpos
    name_lt := hname
    stop_lt := hstop
    quote_lt := hquote
    before_name := fun i hi hlt => by rw [hseen i (by omega)]; exact h.before_name i hi hlt
    isName := fun i hi hlt => by rw [hseen i (by omega)]; exact h.isName i hi hlt
    before_quote := fun i hi hlt => by rw [hseen i (by omega)]; exact h.before_quote i hi hlt
    closing := by rw [hseen quote (Nat.le_refl _), h.closing] }

/-- The name is the first thing behind the bracket that is no blank. -/
theorem seek_name : t.seek (!isInlineBlank ·) (pos + 1) = name := by
  obtain ⟨b, hb, hisName⟩ := h.exists_name
  refine seek_of_any h.pos_lt (fun i hi hlt => h.before_name i hi hlt) hb ?_
  exact Byte.isInlineBlank_of_isBlank (Byte.plain_of_isName hisName).2.1

/-- The name goes on to its stop. -/
theorem seek_stop : t.seek (!Byte.isName ·) name = stop := by
  obtain ⟨b, hb, hblank⟩ := h.exists_stop
  exact seek_of_any (Nat.le_of_lt h.name_lt) (fun i hi hlt => h.isName i hi hlt) hb
    (isBlank_of_isInlineBlank hblank).2

/-- The quote is the first thing behind the name that is no blank. -/
theorem seek_quote : t.seek (!isInlineBlank ·) stop = quote :=
  seek_of_any (Nat.le_of_lt h.stop_lt) (fun i hi hlt => h.before_quote i hi hlt) h.closing rfl

end Lookahead

/-- The lookahead says yes exactly where it finds what it looks for. -/
theorem opensTag_iff :
    t.opensTag pos = true ↔ ∃ name stop quote, t.Lookahead pos name stop quote := by
  constructor
  · intro h
    have hb := getElem?_of_opensTag h
    have hlt := lt_size_of_getElem? hb
    rw [opensTag, if_pos hb] at h
    simp only [Bool.and_eq_true, decide_eq_true_eq, beq_iff_eq] at h
    obtain ⟨⟨hname, hstop⟩, hquote⟩ := h
    have hreach : pos + 1 ≤ (t.upTo (pos + lookahead)).size := by
      rw [size_upTo, lookahead]
      omega
    have hpos := le_seek (p := (!isInlineBlank ·)) hreach
    have hin := lt_size_of_getElem? hquote
    rw [size_upTo] at hin
    have hseen (i : Nat) (hi : i < pos + lookahead) : t[i]? = (t.upTo (pos + lookahead))[i]? := by
      rw [getElem?_upTo, if_pos hi]
    refine ⟨_, _, _, {
      opening := hb
      pos_lt := hpos
      name_lt := hname
      stop_lt := hstop
      quote_lt := by omega
      before_name := ?_
      isName := ?_
      before_quote := ?_
      closing := by rw [hseen _ (by omega), hquote] }⟩
    · -- Within the lookahead the text is seen as it is.
      intro i hi hlt
      rw [hseen i (by omega)]
      exact any_of_lt_seek hi hlt
    · intro i hi hlt
      rw [hseen i (by omega)]
      exact any_of_lt_seek hi hlt
    · intro i hi hlt
      rw [hseen i (by omega)]
      exact any_of_lt_seek hi hlt
  · rintro ⟨name, stop, quote, h⟩
    have hseen := h.upTo
    rw [opensTag, if_pos h.opening]
    simp only [hseen.seek_name, hseen.seek_stop, hseen.seek_quote, hseen.closing, h.name_lt,
      h.stop_lt, decide_true, Bool.and_self, beq_self_eq_true]

/-! ## Pairs -/

/-- The tag is plainly spelled behind its bracket: there are only spaces and tabs in front of the
name, at least one and only such between the name and the quote, and the quote is within reach of
the lookahead. -/
structure PlainlySpelled (t : Text) (pos : Nat) (tag : RawTag) : Prop where
  opening : t[pos]? = some Byte.openBracket
  before_name : ∀ i, pos < i → i < tag.name.start → t[i]?.any isInlineBlank = true
  /-- The quote is in front of the value. -/
  apart : tag.name.stop + 1 < tag.value.start
  before_quote : ∀ i, tag.name.stop ≤ i → i + 1 < tag.value.start →
    t[i]?.any isInlineBlank = true
  in_reach : tag.value.start ≤ pos + lookahead

/-- What the lookahead finds where a pair is are the parts of the pair. -/
theorem Lookahead.of_pair (h : t.Lookahead pos name stop quote)
    (hpair : t.Pair pos tag i bracket) :
    name = tag.name.start ∧ stop = tag.name.stop ∧ quote = i := by
  obtain ⟨b, hb, hisName⟩ := h.exists_name
  obtain ⟨-, hblank, hpercent, hsemicolon, hbrace⟩ := Byte.plain_of_isName hisName
  have hin {i : Nat} (hi : t[i]?.any isInlineBlank = true) : t[i]?.any Byte.isBlank = true := by
    obtain ⟨c, hc, hinline⟩ := exists_of_any hi
    rw [hc, Option.any_some]
    exact (isBlank_of_isInlineBlank hinline).1
  -- Blanks within a line are a gap, so the name is where the tag looks for it.
  have hname : name = tag.name.start := by
    have hgap := (gapInTag_eq_ok_iff.1 hpair.gap_name).2
    rw [gap_of_blanks h.pos_lt fun i hi hlt => hin (h.before_name i hi hlt),
      gap_of_not_inGap (by simp [inGap_of_getElem? hb, hblank, hpercent, hsemicolon, hbrace])]
      at hgap
    exact hgap
  have hstop : stop = tag.name.stop := by
    rw [← hpair.name_stop, ← hname, h.seek_stop]
  refine ⟨hname, hstop, ?_⟩
  -- In the same way the quote is.
  have hgap := (gapInTag_eq_ok_iff.1 hpair.gap_quote).2
  rw [← hstop, gap_of_blanks (Nat.le_of_lt h.stop_lt) fun i hi hlt => hin (h.before_quote i hi hlt),
    gap_of_not_inGap (by rw [inGap_of_getElem? h.closing]; rfl)] at hgap
  exact hgap

/-- Of the pairs in a text the lookahead knows those that are plainly spelled. -/
theorem opensTag_iff_plainlySpelled (hpair : t.tagPair pos = .ok (tag, next)) :
    t.opensTag pos = true ↔ t.PlainlySpelled pos tag := by
  obtain ⟨quote, bracket, hpair, -⟩ := tagPair_eq_ok_iff.1 hpair
  have hvalue := hpair.value_start
  rw [opensTag_iff]
  constructor
  · -- What the lookahead finds is what the pair consists of.
    rintro ⟨name, stop, quote', h⟩
    obtain ⟨rfl, rfl, rfl⟩ := h.of_pair hpair
    have hstop := h.stop_lt
    have hquote := h.quote_lt
    exact {
      opening := h.opening
      before_name := h.before_name
      apart := by omega
      before_quote := fun i hi hlt => h.before_quote i hi (by omega)
      in_reach := by omega }
  · intro h
    have hapart := h.apart
    have hreach := h.in_reach
    refine ⟨tag.name.start, tag.name.stop, quote, {
      opening := h.opening
      pos_lt := le_of_gapInTag hpair.gap_name
      name_lt := hpair.name_lt (lt_size_of_getElem? h.opening)
      stop_lt := by omega
      quote_lt := by omega
      before_name := h.before_name
      isName := fun i hi hlt => any_of_lt_seek hi (hpair.name_stop ▸ hlt)
      before_quote := fun i hi hlt => h.before_quote i hi (by omega)
      closing := hpair.opening }⟩

/-- The lookahead and the pairs. Where a tag pair can be read, the lookahead sees a header coming
exactly if the pair is plainly spelled. So no game of the full index has such a pair in its movetext
outside comments and escaped lines: where the first pair of a game is one, the game in front of it
ends there. -/
theorem lookahead_of_pairs (t : Text) :
    (∀ pos tag next, t.tagPair pos = .ok (tag, next) →
      (t.opensTag pos = true ↔ t.PlainlySpelled pos tag)) ∧
    ∀ strict, ∀ e ∈ t.games strict, ∀ i, e.movetext.start ≤ i → i < e.movetext.stop →
      t.zone e.movetext.start i = .plain →
      ∀ tag next, t.tagPair i = .ok (tag, next) → ¬ t.PlainlySpelled i tag := by
  refine ⟨fun pos tag next hpair => opensTag_iff_plainlySpelled hpair, ?_⟩
  intro strict e he i hi hlt hplain tag next hpair hspelled
  obtain ⟨_, hlies⟩ := lies_of_mem_games he
  have hopens := (opensTag_iff_plainlySpelled hpair).2 hspelled
  rw [hlies.no_header i hi hlt hplain] at hopens
  cases hopens

/-- Two games on four lines, `[A "b"]`, `1. e4 *`, `[C"d"]` and `1. d4 *`. -/
def unspaced : Text :=
  .ofBytes ⟨#[0x5b, 0x41, 0x20, 0x22, 0x62, 0x22, 0x5d, 0x0a, 0x31, 0x2e, 0x20, 0x65, 0x34, 0x20,
    0x2a, 0x0a, 0x5b, 0x43, 0x22, 0x64, 0x22, 0x5d, 0x0a, 0x31, 0x2e, 0x20, 0x64, 0x34, 0x20, 0x2a,
    0x0a]⟩

/-- The pairs of that text. -/
theorem unspaced_pairs :
    unspaced.tagPair 0 = .ok (⟨⟨1, 2⟩, ⟨4, 5⟩⟩, 7) ∧
      unspaced.tagPair 16 = .ok (⟨⟨17, 18⟩, ⟨19, 20⟩⟩, 22) := by
  have hread {start : Nat} {found : RawTag × Nat}
      (h : (unspaced.tagPair start).toOption = some found) :
      unspaced.tagPair start = .ok found := by
    cases hpair : unspaced.tagPair start with
    | error problem =>
      rw [hpair] at h
      cases h
    | ok found' =>
      rw [hpair] at h
      rw [Option.some.inj h]
  exact ⟨hread (by decide +kernel), hread (by decide +kernel)⟩

/-- The second pair stands in the first column and can be read there, and the lookahead behind the
first game does not see it coming: the two games are catalogued as one. -/
theorem lookahead_misses_unspaced :
    unspaced.atLineStart 16 = true ∧ unspaced.tagPair 16 = .ok (⟨⟨17, 18⟩, ⟨19, 20⟩⟩, 22) ∧
      unspaced.opensTag 16 = false ∧
      (unspaced.games false).map (fun e => (e.tags, e.movetext)) = [(⟨0, 7⟩, ⟨8, 30⟩)] := by
  refine ⟨?_, unspaced_pairs.2, ?_, ?_⟩
  · decide +kernel
  · decide +kernel
  · decide +kernel

/-- The first pair of that text is plainly spelled. The second is not, and stands in the
movetext. -/
theorem lookahead_of_pairs_of_unspaced :
    unspaced.PlainlySpelled 0 ⟨⟨1, 2⟩, ⟨4, 5⟩⟩ ∧
      ¬ unspaced.PlainlySpelled 16 ⟨⟨17, 18⟩, ⟨19, 20⟩⟩ := by
  obtain ⟨hfirst, hsecond⟩ := unspaced_pairs
  have hgame : ⟨1, ⟨0, 7⟩, ⟨8, 30⟩, 0xeceb78ac954ccdda, .valid⟩ ∈ unspaced.games false := by
    decide +kernel
  exact ⟨((lookahead_of_pairs unspaced).1 0 _ _ hfirst).1 (by decide +kernel),
    (lookahead_of_pairs unspaced).2 false _ hgame 16 (by decide) (by decide) (by decide +kernel) _ _
      hsecond⟩

end Scorebook.Text
