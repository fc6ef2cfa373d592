import Scorebook.Proofs.Header.Failing
import Scorebook.Proofs.Reporter.Counting
import Scorebook.Proofs.Strictness.Ordinary

/-!
# Advice does not stand in front of problems

Advice points at a tab in a tag value, or at the first token behind a termination marker. A problem
of any reading may have the verdict of advice, but then it does not point at such a place: the
problems of tag values point at no tab, and illegal tokens at no token that is left unread. So as
long as the places of a text are told apart by line and column, advice never has the mark of a
problem of any reading, and neither is taken for the other.
-/

namespace Scorebook

namespace Text

variable {t : Text} {n pos start stop : Nat} {b : UInt8} {e e' : Entry}

/-! ## Places in a text that is cut -/

/-- Where two texts agree they have the same gaps. -/
theorem AgreeBelow.inGap {u : Text} (h : t.AgreeBelow u n) (hlt : pos < n) :
    u.inGap pos = t.inGap pos := by
  rw [Text.inGap, Text.inGap, h pos hlt, h.atLineStart (Nat.le_of_lt hlt)]

/-- A gap is in the text. -/
theorem lt_size_of_inGap (h : t.inGap pos = true) : pos < t.size :=
  Nat.not_le.1 fun hle => by
    rw [inGap_of_size_le hle] at h
    cases h

/-- A gap in view is a gap. -/
theorem inGap_of_upTo (h : (t.upTo n).inGap pos = true) : t.inGap pos = true := by
  have hlt := lt_size_of_inGap h
  rw [size_upTo] at hlt
  rwa [(agreeBelow_upTo t n).inGap (by omega)] at h

/-- A byte in view is a byte of the text. -/
theorem getElem?_of_upTo (h : (t.upTo n)[pos]? = some b) : t[pos]? = some b := by
  have hlt := lt_size_of_getElem? h
  rw [size_upTo] at hlt
  exact (agreeBelow_upTo t n).symm.getElem? h (by omega)

/-- What is never ended starts in a gap. -/
theorem inGap_of_gapFrom_problem {comments : Array Span} {p : Problem}
    (h : (t.gapFrom pos comments).problem? = some p) :
    ∃ kind span, p = .fault kind span ∧ kind.verdict = .illegalToken ∧
      t.inGap span.start = true := by
  fun_induction gapFrom t pos comments with
  | case1 | case8 => cases h
  | case2 _ _ _ _ _ ih | case3 _ _ _ _ _ _ _ _ ih | case5 _ _ _ _ _ _ ih
  | case6 _ _ _ _ _ _ _ _ _ _ ih => exact ih h
  | case4 pos comments b hb _ hpercent =>
    cases h
    exact ⟨_, _, rfl, rfl, by simp [inGap_of_getElem? hb, hpercent]⟩
  | case7 pos comments b hb _ _ _ hbrace =>
    cases h
    exact ⟨_, _, rfl, rfl, by simp [inGap_of_getElem? hb, hbrace]⟩

/-- A token starts in no gap. -/
theorem not_inGap_of_mem_lexemes {s : Span} {token : Token} {span : Span}
    (h : .token token span ∈ t.lexemes s) : t.inGap span.start = false ∧ span.start < t.size := by
  -- The lexemes are those of the text cut at the end of the span, and so are its gaps.
  have hview {pos : Nat} (h : .token token span ∈ (t.upTo s.stop).lexemesAt pos) :
      (t.upTo s.stop).inGap span.start = false ∧ span.start < (t.upTo s.stop).size := by
    induction hleft : (t.upTo s.stop).size - pos using Nat.strongRecOn generalizing pos with
    | ind left ih =>
      rw [lexemesAt_eq] at h
      rcases List.mem_append.1 h with hmem | hmem
      · rcases mem_gapLexemes hmem with ⟨_, -, heq⟩ | ⟨_, -, heq⟩ <;> cases heq
      · split at hmem
        · cases hmem
        · next first hfirst =>
          have hlt := lt_size_of_getElem? hfirst
          rcases List.mem_cons.1 hmem with heq | hmem
          · cases heq
            exact ⟨inGap_gap_stop (t.upTo s.stop) pos, hlt⟩
          · have hgap := (t.upTo s.stop).le_gap_stop pos
            have htoken := lt_tokenAt hfirst
            exact ih _ (by omega) hmem rfl
  obtain ⟨hgap, hlt⟩ := hview h
  rw [size_upTo] at hlt
  rw [(agreeBelow_upTo t s.stop).inGap (by omega)] at hgap
  exact ⟨hgap, by omega⟩

/-! ## The order of games -/

/-- The games found from an offset on start behind it. -/
theorem le_of_mem_gamesFrom {strict : Bool} {game : Entry × Nat}
    (h : game ∈ t.gamesFrom strict pos) : pos ≤ game.1.tags.start := by
  have hbehind {pos next : Nat} {item : Item} {problems : List Problem}
      (hitem : t.nextItem strict pos = (item, problems)) (hnext : item.next? = some next) :
      pos < next :=
    (lt_of_next?_nextItem (by rw [hitem]; exact hnext)).2
  fun_induction gamesFrom t strict pos with
  | case1 => cases h
  | case2 pos next problems hitem ih => exact Nat.le_trans (Nat.le_of_lt (hbehind hitem rfl)) (ih h)
  | case3 pos entry next problems hitem ih =>
    rcases List.mem_cons.1 h with rfl | h
    · exact (found_of_nextItem hitem).1 ▸ t.le_gap_stop pos
    · exact Nat.le_trans (Nat.le_of_lt (hbehind hitem rfl)) (ih h)

/-- A game lies in front of those behind it. -/
theorem stop_le_of_lt {i j : Nat} (hi : (t.games true)[i]? = some e)
    (hj : (t.games true)[j]? = some e') (hlt : i < j) : e.movetext.stop ≤ e'.tags.start := by
  obtain ⟨next, hlies, hrest⟩ := lies_of_getElem?_games hi
  obtain ⟨entry, next', hget, rfl⟩ := getElem?_games_iff.1 hj
  have hmem : (entry, next') ∈ t.gamesFrom true next := by
    rw [hrest]
    refine List.mem_of_getElem? (i := j - (i + 1)) ?_
    rw [List.getElem?_drop, show i + 1 + (j - (i + 1)) = j by omega, hget]
  exact Nat.le_trans hlies.stop_le (le_of_mem_gamesFrom hmem)

/-- Different games lie one behind the other. -/
theorem eq_or_apart (he : e ∈ t.games true) (he' : e' ∈ t.games true) :
    e = e' ∨ e.movetext.stop ≤ e'.tags.start ∨ e'.movetext.stop ≤ e.tags.start := by
  obtain ⟨i, hi⟩ := List.mem_iff_getElem?.1 he
  obtain ⟨j, hj⟩ := List.mem_iff_getElem?.1 he'
  rcases Nat.lt_trichotomy i j with hij | rfl | hji
  · exact .inr (.inl (stop_le_of_lt hi hj hij))
  · exact .inl (Option.some.inj (hi.symm.trans hj))
  · exact .inr (.inr (stop_le_of_lt hj hi hji))

/-- The tags of a game lie in front of its movetext, and neither goes back. -/
theorem lt_movetext_of_mem_games (he : e ∈ t.games true) :
    e.tags.start < e.movetext.start ∧ e.tags.stop ≤ e.movetext.start ∧
      e.movetext.start ≤ e.movetext.stop := by
  obtain ⟨_, hlies⟩ := lies_of_mem_games he
  exact ⟨Nat.lt_of_lt_of_le hlies.start_lt hlies.tags_le, hlies.tags_le, hlies.movetext_le⟩

/-- No game that is scanned ends behind the scan. -/
theorem Scans.next_le {strict : Bool} {games : List (Entry × Nat)}
    (h : Scans t strict pos games stop) : ∀ game ∈ games, game.2 ≤ stop := by
  induction h with
  | here => exact nofun
  | stray _ _ ih => exact ih
  | game _ hrest ih =>
    intro game hgame
    rcases List.mem_cons.1 hgame with rfl | hgame
    · exact hrest.le
    · exact ih game hgame

/-- Text that belongs to no game is in no game's movetext. -/
theorem Scans.stray_apart {next : Nat} {games : List (Entry × Nat)}
    (h : Scans t true (Catalogue.scanStart t 0) games stop)
    (hitem : (t.nextItem true stop).1 = .stray next) (he : e ∈ t.games true) :
    e.movetext.stop ≤ (t.gap stop).stop ∨ (t.gap stop).stop < e.movetext.start := by
  -- The game was scanned in front of the stray text, or it will be behind it.
  obtain ⟨i, hi⟩ := List.mem_iff_getElem?.1 he
  obtain ⟨entry, next', hget, rfl⟩ := getElem?_games_iff.1 hi
  have hlies := (found_of_getElem?_gamesFrom hget).1.lies
  have hmem := List.mem_of_getElem? hget
  rw [scannedGames, h.gamesFrom_eq] at hmem
  have hgap := t.le_gap_stop stop
  rcases List.mem_append.1 hmem with hbefore | hbehind
  · have hnext := h.next_le _ hbefore
    have hstop := hlies.stop_le
    simp only at hnext ⊢
    omega
  · -- The scan goes on behind the stray text, so a later game begins there.
    obtain ⟨b, hb, -, hresync⟩ := nextItem_eq_stray_iff.1 hitem
    have hlt := lt_resync (lt_size_of_getElem? hb)
    have hrest : t.gamesFrom true stop = t.gamesFrom true next :=
      gamesFrom_of_stray (Prod.ext hitem rfl)
    rw [hrest] at hbehind
    have hstart := le_of_mem_gamesFrom hbehind
    have htags := hlies.tags_le
    have hlow := hlies.start_lt
    simp only at hstart ⊢
    omega

/-! ## What is not read -/

/-- A token of a game starts here that reading the game does not get to. -/
def UnreadAt (t : Text) (pos : Nat) : Prop :=
  ∃ e ∈ t.games true, ∃ rest token span,
    t.lexemes e.movetext =
        (Reader.start e.movetext.start).taken true (t.lexemes e.movetext) ++ rest ∧
      .token token span ∈ rest ∧ span.start = pos

namespace UnreadAt

/-- An unread offset is the start of a token of some game. -/
theorem exists_token (h : t.UnreadAt pos) :
    ∃ e ∈ t.games true, ∃ token span, .token token span ∈ t.lexemes e.movetext ∧
      span.start = pos := by
  obtain ⟨e, he, rest, token, span, hsplit, hmem, hstart⟩ := h
  exact ⟨e, he, token, span, hsplit ▸ List.mem_append_right _ hmem, hstart⟩

/-- An unread offset is in no gap. -/
theorem not_inGap (h : t.UnreadAt pos) : t.inGap pos = false := by
  obtain ⟨e, -, token, span, hmem, rfl⟩ := h.exists_token
  exact (not_inGap_of_mem_lexemes hmem).1

/-- An unread offset lies in the movetext of some game. -/
theorem exists_game (h : t.UnreadAt pos) :
    ∃ e ∈ t.games true, e.movetext.start ≤ pos ∧ pos < e.movetext.stop := by
  obtain ⟨e, he, token, span, hmem, rfl⟩ := h.exists_token
  have hlaid := (laidOut_lexemes t e.movetext).of_mem hmem
  exact ⟨e, he, hlaid.1, by omega⟩

end UnreadAt

/-- No token of a game that is read starts where one starts that is not. -/
theorem not_unreadAt_of_taken {token : Token} {span : Span} (he : e ∈ t.games true)
    (hmem : .token token span ∈
      (Reader.start e.movetext.start).taken true (t.lexemes e.movetext)) :
    ¬ t.UnreadAt span.start := by
  rintro ⟨e', he', rest, token', span', hsplit, hrest, hstart⟩
  have hlaid := (laidOut_lexemes t e.movetext).of_mem (Reader.taken_subset _ _ _ hmem)
  have hlaid' := (laidOut_lexemes t e'.movetext).of_mem (hsplit ▸ List.mem_append_right _ hrest)
  have hplace := lt_movetext_of_mem_games he
  have hplace' := lt_movetext_of_mem_games he'
  obtain rfl : e = e' := (eq_or_apart he he').resolve_right (by omega)
  have hwhole := laidOut_lexemes t e.movetext
  rw [hsplit] at hwhole
  have := hwhole.stop_le hmem hrest
  omega

/-- Headers are apart from movetext. -/
theorem not_unreadAt_of_header (he : e ∈ t.games true) (hle : e.tags.start ≤ pos)
    (hlt : pos < e.tags.stop) : ¬ t.UnreadAt pos := by
  intro hunread
  obtain ⟨e', he', hle', hlt'⟩ := hunread.exists_game
  have hplace := lt_movetext_of_mem_games he
  have hplace' := lt_movetext_of_mem_games he'
  rcases eq_or_apart he he' with rfl | hapart <;> omega

end Text

/-! ## Problems and advice -/

/-- Advice of this verdict can point here: at a tab, or at a token that is not read. -/
inductive Text.Advised (t : Text) (pos : Nat) : Verdict → Prop
  | tab (htab : t[pos]? = some Byte.tab) : Advised t pos .illegalTagValue
  | unread (hunread : t.UnreadAt pos) : Advised t pos .illegalToken

/-- The problem points into the text, and to a place for advice of its verdict exactly if it is
advice. -/
def Problem.ToldApart (t : Text) (p : Problem) : Prop :=
  ∃ span, p.span? = some span ∧ span.start ≤ t.size ∧
    (t.Advised span.start p.verdict ↔ p.isAdvisory = true)

namespace Text

variable {t : Text} {n pos start stop : Nat} {b : UInt8} {e : Entry} {p : Problem} {kind : Fault}
  {span : Span}

/-- A fault is told apart from advice that its verdict might be mistaken for. -/
theorem toldApart_of_fault (hkind : kind ≠ .tabInTagValue) (hle : span.start ≤ t.size)
    (hvalue : kind.verdict = .illegalTagValue → t[span.start]? ≠ some Byte.tab)
    (htoken : kind.verdict = .illegalToken → ¬ t.UnreadAt span.start) :
    (Problem.fault kind span).ToldApart t := by
  refine ⟨span, rfl, hle, iff_of_false ?_ ?_⟩
  · intro hadvised
    generalize hverdict : (Problem.fault kind span).verdict = verdict at hadvised
    cases hadvised with
    | tab htab => exact hvalue hverdict htab
    | unread hunread => exact htoken hverdict hunread
  · cases kind with
    | tabInTagValue => exact absurd rfl hkind
    | _ => exact Bool.false_ne_true

/-- A problem of a verdict that no advice has is told apart. -/
theorem toldApart_of_verdict (hvalue : kind.verdict ≠ .illegalTagValue)
    (htoken : kind.verdict ≠ .illegalToken) (hle : span.start ≤ t.size) :
    (Problem.fault kind span).ToldApart t :=
  toldApart_of_fault (fun hkind => hvalue (hkind ▸ rfl)) hle (absurd · hvalue) (absurd · htoken)

/-- A problem of a token is told apart from advice where movetext is read. -/
theorem toldApart_of_token (h : kind.verdict = .illegalToken) (hle : span.start ≤ t.size)
    (hread : ¬ t.UnreadAt span.start) : (Problem.fault kind span).ToldApart t := by
  have hvalue : kind.verdict ≠ .illegalTagValue := by
    rw [h]
    decide
  exact toldApart_of_fault (fun hkind => hvalue (hkind ▸ rfl)) hle (absurd · hvalue) fun _ => hread

/-- A problem of a value is told apart from a tab unless there is one. -/
theorem toldApart_of_value (h : kind.verdict = .illegalTagValue) (hkind : kind ≠ .tabInTagValue)
    (hle : span.start ≤ t.size) (htab : t[span.start]? ≠ some Byte.tab) :
    (Problem.fault kind span).ToldApart t := by
  have htoken : kind.verdict ≠ .illegalToken := by
    rw [h]
    decide
  exact toldApart_of_fault hkind hle (fun _ => htab) (absurd · htoken)

/-- A problem in a gap is told apart, since advice is about tokens. -/
theorem toldApart_of_inGap (h : kind.verdict = .illegalToken) (hgap : t.inGap span.start = true) :
    (Problem.fault kind span).ToldApart t := by
  refine toldApart_of_token h (Nat.le_of_lt (lt_size_of_inGap hgap)) fun hunread => ?_
  rw [hunread.not_inGap] at hgap
  cases hgap

/-- The problem of a gap, also of one in a text that is cut. -/
theorem toldApart_of_gap (h : ((t.upTo n).gap pos).problem? = some p) : p.ToldApart t := by
  obtain ⟨kind, span, rfl, hkind, hgap⟩ := inGap_of_gapFrom_problem h
  exact toldApart_of_inGap hkind (inGap_of_upTo hgap)

/-! ## Headers -/

/-- A value ends at a quote, at a byte that no value may hold, or with the text. -/
theorem valueStop_eq_or (t : Text) (pos : Nat) :
    t[t.valueStop pos]? = none ∨
      ∃ b, t[t.valueStop pos]? = some b ∧ (b = Byte.quote ∨ Byte.isForbidden b = true) := by
  fun_induction valueStop t pos with
  | case1 pos hnone => exact .inl hnone
  | case2 pos b hb hescape ih => exact ih
  | case3 pos b hb hescape hend => exact .inr ⟨b, hb, by simpa using hend⟩
  | case4 pos b hb hescape hend ih => exact ih

/-- A tab may stand in a value. -/
theorem not_tab_of_isForbidden (h : Byte.isForbidden b = true) : b ≠ Byte.tab := by
  rintro rfl
  exact absurd h (by decide)

/-- Where a gap of a text that is cut ends, there is no tab in the whole text, unless it was cut in
front of one. -/
theorem not_tab_of_gap_stop (hn : t[n]? ≠ some Byte.tab) (hpos : pos ≤ (t.upTo n).size) :
    ((t.upTo n).gap pos).stop ≤ t.size ∧ t[((t.upTo n).gap pos).stop]? ≠ some Byte.tab := by
  have hle := gap_stop_le hpos
  have hgap := (t.upTo n).inGap_gap_stop pos
  generalize ((t.upTo n).gap pos).stop = stop at hle hgap
  rw [size_upTo] at hle
  refine ⟨by omega, fun htab => ?_⟩
  have hlt := lt_size_of_getElem? htab
  rcases Nat.lt_or_ge stop n with hin | hout
  · rw [(agreeBelow_upTo t n).inGap hin, inGap_of_getElem? htab] at hgap
    exact Bool.noConfusion hgap
  · obtain rfl : stop = n := by omega
    exact hn htab

/-- The problem of a malformed pair is told apart from advice. -/
theorem toldApart_of_malformed (hn : t[n]? ≠ some Byte.tab)
    (hb : (t.upTo n)[start]? = some Byte.openBracket) (hread : ¬ t.UnreadAt start)
    (h : (t.upTo n).Malformed start p) : p.ToldApart t := by
  have hbracket := getElem?_of_upTo hb
  have hstart := lt_size_of_getElem? hbracket
  have hlow := lt_size_of_getElem? hb
  have hsize : (t.upTo n).size ≤ t.size := by rw [size_upTo]; omega
  -- By the ways in which a pair is malformed: each has its verdict or its place.
  cases h with
  | gapBeforeName hgap | gapBehindName _ _ hgap | gapBehindValue _ _ hgap =>
    exact toldApart_of_gap (gapInTag_eq_error_iff.1 hgap)
  | badName hgap =>
    exact toldApart_of_verdict (by decide) (by decide)
      (Nat.le_trans (le_size_of_gapInTag hlow hgap) hsize)
  | noValue hname =>
    obtain ⟨-, hseek, -, -, hgap⟩ := tagName_eq_ok_iff.1 hname
    have hquote := (gapInTag_eq_ok_iff.1 hgap).2
    obtain ⟨hle, htab⟩ := not_tab_of_gap_stop hn (hseek ▸ seek_le_size ..)
    rw [hquote] at hle htab
    exact toldApart_of_value rfl (by decide) hle htab
  | openValue =>
    refine toldApart_of_value rfl (by decide) (Nat.le_of_lt hstart) ?_
    rw [hbracket]
    decide
  | @control _ quote _ _ hclose hline =>
    -- A value that is not closed by a quote ends at the cut or at a byte that is no tab.
    rcases (t.upTo n).valueStop_eq_or (quote + 1) with hnone | ⟨c, hc, hquote | hforbidden⟩
    · rw [hnone] at hline
      exact absurd rfl hline
    · exact absurd (hquote ▸ hc) hclose
    · have hc := getElem?_of_upTo hc
      refine toldApart_of_value rfl (by decide) (Nat.le_of_lt (lt_size_of_getElem? hc)) ?_
      rw [hc]
      exact fun htab => not_tab_of_isForbidden hforbidden (Option.some.inj htab)
  | noBracket => exact toldApart_of_token rfl (Nat.le_of_lt hstart) hread

/-- A tab that is advised against is told apart from other advice. -/
theorem toldApart_of_tabsInTag (h : p ∈ (t.upTo n).tabsInTag start) : p.ToldApart t := by
  obtain ⟨i, rfl, htab⟩ := of_mem_tabsInTag h
  have htab := getElem?_of_upTo htab
  exact ⟨_, rfl, Nat.le_of_lt (lt_size_of_getElem? htab), iff_of_true (.tab htab) rfl⟩

/-- All problems of a header are told apart from advice. -/
theorem toldApart_of_headerFrom (hn : t[n]? ≠ some Byte.tab) (tags : Array RawTag)
    {problems : Array Problem} (h : ∀ p ∈ problems.toList, p.ToldApart t)
    (hread : ∀ i, pos ≤ i →
      i < ((t.upTo n).headerFrom true start pos stop tags problems).span.stop → ¬ t.UnreadAt i) :
    ∀ p ∈ ((t.upTo n).headerFrom true start pos stop tags problems).problems, p.ToldApart t := by
  -- The tabs of a pair are advice on tabs, wherever the pair begins.
  have hwarned (pos : Nat) {problems : Array Problem} (h : ∀ p ∈ problems.toList, p.ToldApart t) :
      ∀ p ∈ (problems ++ (t.upTo n).tabsInTag pos).toList, p.ToldApart t := by
    intro p hp
    rw [Array.toList_appendList] at hp
    exact (List.mem_append.1 hp).elim (h p) toldApart_of_tabsInTag
  have hgap (pos : Nat) : ∀ p ∈ ((t.upTo n).gap pos).problem?.toList, p.ToldApart t :=
    fun p hp => toldApart_of_gap (Option.mem_toList.1 hp)
  -- By the recursion of the header, each part of which is read in front of its end.
  fun_induction headerFrom (t.upTo n) true start pos stop tags problems with
  | case1 pos stop tags problems hb warned tag next hpair gap ih =>
    have hle := Nat.le_trans (Nat.le_of_lt (lt_of_tagPair (lt_size_of_getElem? hb) hpair))
      ((t.upTo n).le_gap_stop next)
    refine ih (fun p hp => ?_) fun i hi => hread i (Nat.le_trans hle hi)
    rw [Array.toList_appendList] at hp
    exact (List.mem_append.1 hp).elim (hwarned pos h p) (hgap next p)
  | case2 pos stop tags problems hb warned problem hpair next gap ih =>
    have hlt : pos < ((t.upTo n).headerFrom true start pos stop tags problems).span.stop :=
      lt_headerFrom_span_stop tags problems hb
    rw [headerFrom_of_problem hb hpair] at hlt
    have hpos := hread pos (Nat.le_refl _) hlt
    have hle := Nat.le_trans (le_lineEnd (Nat.le_of_lt (lt_size_of_getElem? hb)))
      ((t.upTo n).le_gap_stop ((t.upTo n).lineEnd pos))
    refine ih (fun p hp => ?_) fun i hi => hread i (Nat.le_trans hle hi)
    rw [Array.toList_appendList] at hp
    rcases List.mem_append.1 hp with hold | hnew
    · exact hwarned pos h p hold
    · rcases List.mem_cons.1 hnew with rfl | hnew
      · exact toldApart_of_malformed hn hb hpos (tagPair_eq_error_iff.1 hpair)
      · exact hgap next p hnew
  | case3 pos stop tags problems hb => exact h

/-- What is found in the header of a game is told apart, also if the text is cut behind it. -/
theorem toldApart_of_header (he : e ∈ t.games true) (hn : t[n]? ≠ some Byte.tab)
    (hspan : ((t.upTo n).header true e.tags.start).span = e.tags)
    (h : p ∈ ((t.upTo n).header true e.tags.start).problems) : p.ToldApart t := by
  refine toldApart_of_headerFrom hn #[] (List.forall_mem_nil _) (fun i hle hlt => ?_) p h
  change i < ((t.upTo n).header true e.tags.start).span.stop at hlt
  rw [hspan] at hlt
  exact not_unreadAt_of_header he hle hlt

/-! ## Scans -/

/-- What a gap of the whole text leaves open is told apart from advice. -/
theorem toldApart_of_gap_of_text (h : (t.gap pos).problem? = some p) : p.ToldApart t := by
  rw [← t.upTo_self] at h
  exact toldApart_of_gap h

/-- All problems of cataloguing a game are told apart from advice. -/
theorem toldApart_of_scanGame (he : e ∈ t.games true)
    (h : p ∈ (t.scanGame true e.tags.start).2.2) : p.ToldApart t := by
  rcases List.mem_append.1 h with hheader | hmovetext
  · have hend : t[t.size]? ≠ some Byte.tab := by
      rw [getElem?_eq_none_iff.2 (Nat.le_refl _)]
      exact nofun
    obtain ⟨hb, hscan⟩ := scanGame_of_mem_games he
    have hspan := (header_of_scanGame hb hscan).1
    refine toldApart_of_header he hend ?_ ?_ <;> rw [upTo_self] <;> assumption
  · exact forall_movetextFrom (fun _ _ => toldApart_of_gap_of_text) (List.forall_mem_nil _) p
      hmovetext

/-- The game a scan comes upon is one of the games. -/
theorem Scans.mem_games {games : List (Entry × Nat)}
    (h : Scans t true (Catalogue.scanStart t 0) games stop)
    (hb : t[(t.gap stop).stop]? = some Byte.openBracket) :
    ∃ e ∈ t.games true, e.tags.start = (t.gap stop).stop := by
  have hitem : (t.nextItem true stop).1 =
      .game (t.scanGame true (t.gap stop).stop).1 (t.scanGame true (t.gap stop).stop).2.1 :=
    nextItem_eq_game_iff.2 ⟨hb, rfl, rfl⟩
  have hget : (t.scannedGames true)[games.length]? =
      some ((t.scanGame true (t.gap stop).stop).1, (t.scanGame true (t.gap stop).stop).2.1) := by
    rw [scannedGames, h.gamesFrom_eq, List.getElem?_append_right (Nat.le_refl _), Nat.sub_self,
      gamesFrom_of_game (Prod.ext hitem rfl)]
    rfl
  exact ⟨_, List.mem_of_getElem? (getElem?_games_iff.2 ⟨_, _, hget, rfl⟩),
    (scanGame_lies true hb).tags_start⟩

/-- What cataloguing comes upon is told apart. -/
theorem toldApart_of_nextItem {games : List (Entry × Nat)}
    (hscans : Scans t true (Catalogue.scanStart t 0) games stop)
    (h : p ∈ (t.nextItem true stop).2) : p.ToldApart t := by
  -- What is found in one step is of the gap, of a game or of stray text.
  rcases List.mem_append.1 h with hgap | hitem
  · exact toldApart_of_gap_of_text (Option.mem_toList.1 hgap)
  · split at hitem
    · cases hitem
    · next b hb =>
      split at hitem
      · next hbracket =>
        obtain ⟨e, he, hstart⟩ := hscans.mem_games (hbracket ▸ hb)
        exact toldApart_of_scanGame he (hstart ▸ hitem)
      · next hbracket =>
        obtain rfl := List.mem_singleton.1 hitem
        -- No game covers stray text, so nothing is unread there.
        refine toldApart_of_token rfl (Nat.le_of_lt (lt_size_of_getElem? hb)) fun hunread => ?_
        obtain ⟨e, he, hle, hlt⟩ := hunread.exists_game
        have hstray : (t.nextItem true stop).1 = .stray (t.resync (t.gap stop).stop) :=
          nextItem_eq_stray_iff.2 ⟨b, hb, hbracket, rfl⟩
        have hapart := hscans.stray_apart hstray he
        simp only at hle hlt
        omega

/-! ## Reading games -/

/-- Movetext starts with no blank. -/
theorem HeaderExtent.not_isBlank {h : Header} (he : HeaderExtent t start h)
    (hb : t[h.movetext]? = some b) : Byte.isBlank b = false := by
  rcases Nat.lt_or_eq_of_le he.movetext_le_next with hlt | heq
  · rcases seek_eq_size_or (t.upTo h.next) (!Byte.isBlank ·) h.span.stop with hend | ⟨c, hc, hblank⟩
    · have hsize := lt_size_of_getElem? hb
      rw [← he.movetext_eq, size_upTo] at hend
      omega
    · rw [← he.movetext_eq, getElem?_upTo, if_pos hlt, hb] at hc
      cases hc
      simpa using hblank
  · have hgap := t.inGap_gap_stop h.span.stop
    rw [he.gap_stop, ← heq, inGap_of_getElem? hb] at hgap
    cases hblank : Byte.isBlank b with
    | false => rfl
    | true =>
      rw [hblank] at hgap
      cases hgap

/-- Movetext starts with no tab, since tabs are gaps. -/
theorem not_tab_movetext_start (he : e ∈ t.games true) :
    t[max e.movetext.start e.tags.stop]? ≠ some Byte.tab := by
  obtain ⟨hb, hscan⟩ := scanGame_of_mem_games he
  rw [← (header_of_scanGame hb hscan).2]
  exact fun htab => absurd ((header_extent true hb).not_isBlank htab) (by decide)

/-- The problem of a token that is taken is told apart from advice. -/
theorem toldApart_of_taken {token : Token} (he : e ∈ t.games true)
    (hmem : .token token span ∈ (Reader.start e.movetext.start).taken true (t.lexemes e.movetext))
    (hkind : kind.isOf token = true) : (Problem.fault kind span).ToldApart t := by
  have hle := Nat.le_of_lt (not_inGap_of_mem_lexemes (Reader.taken_subset _ _ _ hmem)).2
  have hread := not_unreadAt_of_taken he hmem
  cases kind with
  | nagWithoutMove | unexpectedCharacter | unmatchedCloseParen | variationWithoutMove =>
    exact toldApart_of_token rfl hle hread
  | badNag | badSan | badTerminationMarker | markerInVariation =>
    exact toldApart_of_verdict (by decide) (by decide) hle
  | _ => cases hkind

/-- What is found in the movetext of a game is told apart. -/
theorem toldApart_of_score (he : e ∈ t.games true) (h : p ∈ (t.score true e.movetext).problems) :
    p.ToldApart t := by
  have hnone : (Reader.start e.movetext.start).OpenedBy [] := nofun
  have hsub := Reader.taken_subset true (Reader.start e.movetext.start) (t.lexemes e.movetext)
  -- A pass notes what its lexemes say, and advises against what follows the marker.
  rcases Reader.notes_pass hnone h with hbefore | hnotes | ⟨-, hsplit⟩
  · exact absurd hbefore (Array.not_mem_empty _)
  · cases hnotes with
    | openEnd hmem =>
      obtain ⟨from_, -, hgap⟩ := exists_gap_of_openEnd (hsub hmem)
      exact toldApart_of_gap hgap
    | token hmem hkind => exact toldApart_of_taken he hmem hkind
    | @unmatched span hmem =>
      -- A parenthesis without a partner is noted where it stands, in front of its line.
      have hparen : span.start = span.stop - 1 :=
        Nat.eq_sub_of_add_eq ((laidOut_lexemes t e.movetext).opening (hsub hmem)).symm
      have hle := Nat.le_of_lt (not_inGap_of_mem_lexemes (hsub hmem)).2
      have hread := not_unreadAt_of_taken he hmem
      rw [hparen] at hle hread
      exact toldApart_of_token rfl hle hread
    | missing =>
      obtain ⟨_, hlies⟩ := lies_of_mem_games he
      exact toldApart_of_verdict (by decide) (by decide)
        (Nat.le_trans hlies.stop_le hlies.next_le)
  · -- What is advised against was not taken, so it is unread, as the advice says.
    obtain ⟨before, outcome, marker, rest, extra, htaken, hlexemes, hextra, rfl⟩ := hsplit
    obtain ⟨token, hmem⟩ := Reader.mem_of_firstToken? hextra
    have hsplit : t.lexemes e.movetext =
        (Reader.start e.movetext.start).taken true (t.lexemes e.movetext) ++ rest := by
      rw [htaken, hlexemes, List.append_assoc, List.singleton_append]
    have hlt := (not_inGap_of_mem_lexemes (hsplit ▸ List.mem_append_right _ hmem)).2
    exact ⟨_, rfl, Nat.le_of_lt hlt,
      iff_of_true (.unread ⟨e, he, rest, token, extra, hsplit, hmem, rfl⟩) rfl⟩

end Text

/-- What reading a catalogued game finds is told apart. -/
theorem Game.toldApart_of_read {buffer : Buffer} {e : Entry} {n : Nat} {p : Problem}
    (he : e ∈ buffer.text.games true) (h : p ∈ (Game.read buffer true n e).problems) :
    p.ToldApart buffer.text := by
  rcases List.mem_append.1 h with hheader | hscore
  · obtain ⟨hb, hscan⟩ := Text.scanGame_of_mem_games he
    have hspan := (Text.header_of_scanGame hb hscan).1
    exact Text.toldApart_of_header he (Text.not_tab_movetext_start he)
      ((Text.header_upTo_of_mem_games he).2.trans hspan) hheader
  · exact Text.toldApart_of_score he hscore

/-! ## Marks -/

/-- Where places are told apart, advice does not have the mark of a problem of any reading. -/
theorem Problem.ToldApart.isAdvisory_eq {t : Text} {p q : Problem} (hfit : t.LinesFit)
    (hp : p.ToldApart t) (hq : q.ToldApart t) (hmark : p.mark t = q.mark t) :
    p.isAdvisory = q.isAdvisory := by
  obtain ⟨span, hspan, hle, hadvised⟩ := hp
  obtain ⟨span', hspan', hle', hadvised'⟩ := hq
  obtain ⟨hverdict, hplace⟩ := Mark.mk.inj hmark
  simp only [place, hspan, hspan', Nat.min_eq_left hle, Nat.min_eq_left hle'] at hplace
  have hstart := LineTable.placeAt_injective hfit hle hle' hplace
  rw [Bool.eq_iff_iff, ← hadvised, ← hadvised', hstart, hverdict]

end Scorebook
