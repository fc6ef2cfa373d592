import Scorebook.Proofs.Catalogue.Scans
import Scorebook.Proofs.Game.Headers
import Scorebook.Proofs.Movetext.Steps
import Scorebook.Proofs.Movetext.Strides

/-!
# Two readings of movetext agree

Cataloguing and reading a game cut its movetext into different pieces, and reading does not see what
is behind it. What is a comment to one is a comment to the other all the same. The text in view ends
with a stretch, so every gap in front of it is the same in view and in the whole; a game without any
stretch reaches to the end of the text, where nothing is cut off. Reading may stop early, at a
marker. It has then collected the comments up to there and no others, for comments and tokens stand
in order (`Text.pairwise_lexemesAt`).
-/

namespace Scorebook

/-- The body of a comment. -/
def Lexeme.body? : Lexeme → Option Span
  | .comment body _ => some body
  | _ => none

namespace Text

variable {t : Text} {pos stop n : Nat} {strict : Bool} {e : Entry}

/-! ## The order of comments and tokens -/

/-- A comment of a gap lies behind where the gap starts and ends in it. -/
theorem comments_gapFrom {comments : Array Span} (hpos : pos ≤ t.size) :
    ∀ body ∈ (t.gapFrom pos comments).comments,
      body ∈ comments ∨ pos < body.start ∧ body.start ≤ (t.gapFrom pos comments).stop := by
  -- By the recursion of `gapFrom`: three of its cases add a comment, behind those before.
  fun_induction gapFrom t pos comments with
  | case1 | case8 | case4 => exact fun _ hbody => .inl hbody
  | case2 pos comments b hb hblank ih =>
    intro body hbody
    exact (ih (lt_size_of_getElem? hb) body hbody).imp_right (.imp_left Nat.lt_of_succ_lt)
  | case3 pos comments b hb hblank hescape eol heol ih =>
    have hle : pos ≤ eol := le_lineEnd hpos
    intro body hbody
    exact (ih heol body hbody).imp_right (.imp_left (by omega))
  | case5 pos comments eol hb hblank hescape ih =>
    have hlt : pos < eol := lt_lineEnd hb (by decide)
    have hstop := t.le_gapFrom_stop eol (comments.push ⟨pos + 1, eol⟩)
    intro body hbody
    rcases ih (seek_le_size ..) body hbody with hmem | ⟨hlow, hhigh⟩
    · rcases Array.mem_push.1 hmem with hold | rfl
      · exact .inl hold
      · exact .inr ⟨Nat.lt_succ_self pos, Nat.le_trans hlt hstop⟩
    · exact .inr ⟨by omega, hhigh⟩
  | case6 pos comments b hb hblank hescape hsemicolon hbrace close hclose ih =>
    have hle : pos ≤ close := le_seek hpos
    have hstop := t.le_gapFrom_stop (close + 1) (comments.push ⟨pos + 1, close⟩)
    intro body hbody
    rcases ih hclose body hbody with hmem | ⟨hlow, hhigh⟩
    · rcases Array.mem_push.1 hmem with hold | rfl
      · exact .inl hold
      · exact .inr ⟨Nat.lt_succ_self pos, by simp only; omega⟩
    · exact .inr ⟨by omega, hhigh⟩
  | case7 pos comments b hb hblank hescape hsemicolon hbrace close hclose =>
    have hlt := lt_size_of_getElem? hb
    intro body hbody
    rcases Array.mem_push.1 hbody with hold | rfl
    · exact .inl hold
    · exact .inr ⟨Nat.lt_succ_self pos, hlt⟩

/-- The comments of a gap lie in it. -/
theorem comments_gap (hpos : pos ≤ t.size) {body : Span} (h : body ∈ (t.gap pos).comments) :
    pos < body.start ∧ body.start ≤ (t.gap pos).stop :=
  (comments_gapFrom hpos body h).resolve_left (Array.not_mem_empty body)

/-- The lexemes of a gap are its comments and what it leaves open. -/
theorem mem_gapLexemes {gap : Gap} {lexeme : Lexeme} (h : lexeme ∈ (t.gapLexemes gap).toList) :
    (∃ body ∈ gap.comments, lexeme = .comment body (t.readTrimmed body)) ∨
      ∃ problem, gap.problem? = some problem ∧ lexeme = .openEnd problem := by
  simp only [gapLexemes, Array.toList_append, List.mem_append, Array.toList_map, List.mem_map,
    Array.mem_toList_iff, Option.mem_toArray] at h
  rcases h with ⟨body, hbody, rfl⟩ | ⟨problem, hproblem, rfl⟩
  · exact .inl ⟨body, hbody, rfl⟩
  · exact .inr ⟨problem, hproblem, rfl⟩

/-- The comments of a gap are read as they lie in it. -/
@[simp] theorem filterMap_body?_gapLexemes (t : Text) (gap : Gap) :
    (t.gapLexemes gap).toList.filterMap Lexeme.body? = gap.comments.toList := by
  cases h : gap.problem? <;>
    simp [gapLexemes, h, List.filterMap_map, Function.comp_def, Lexeme.body?]

end Text

/-! ## Comments up to the end of the pass -/

namespace Reader

variable {halts : Bool} {stop : Nat} {lexemes : List Lexeme}

end Reader

/-! ## Views that end with a stretch -/

namespace Text

variable {t : Text} {pos stop n : Nat} {strict : Bool} {e : Entry}

/-- Lexemes are those of the gap and those behind it. -/
theorem lexemesAt_eq_gap_append (t : Text) (pos : Nat) :
    t.lexemesAt pos = (t.gapLexemes (t.gap pos)).toList ++ t.lexemesAt (t.gap pos).stop := by
  rw [lexemesAt_eq, lexemesAt_eq t (t.gap pos).stop, gap_of_not_inGap (inGap_gap_stop t pos),
    toList_gapLexemes_empty, List.nil_append]

/-- The lexemes in view are those of what is stepped over in the text as far as one sees. -/
structure Agrees (t : Text) (pos n : Nat) : Prop where
  comments : ((t.upTo n).lexemesAt pos).filterMap Lexeme.body? =
    ((t.strides pos).filterMap Stride.comment?).filter (·.start ≤ n)
  tokens : ∀ token span, .token token span ∈ (t.upTo n).lexemesAt pos →
    ∃ s, .stretch s ∈ t.strides pos ∧ s.start ≤ span.start ∧ span.stop ≤ s.stop

/-- All comments of a gap start in front of where it ends. -/
theorem filter_comments_of_le (hpos : pos ≤ t.size) (hle : (t.gap pos).stop ≤ n) :
    (t.gap pos).comments.toList.filter (·.start ≤ n) = (t.gap pos).comments.toList := by
  rw [List.filter_eq_self]
  intro body hbody
  have := (comments_gap hpos (Array.mem_toList_iff.1 hbody)).2
  exact decide_eq_true (by omega)

/-- Tokens are no comments. -/
theorem filterMap_body?_tokens {s : Span} {tokens : List Lexeme}
    (h : ∀ lexeme ∈ tokens, lexeme.IsTokenIn s) : tokens.filterMap Lexeme.body? = [] := by
  rw [List.filterMap_eq_nil_iff]
  intro lexeme hmem
  obtain ⟨token, span, rfl, -⟩ := h lexeme hmem
  rfl

/-- A gap and a stretch that are in view are read as they are stepped over. -/
theorem Agrees.stretch (hpos : pos ≤ t.size)
    (hend : ¬(t.size ≤ (t.gap pos).stop ∨ t.opensTag (t.gap pos).stop = true))
    (hle : t.seek endsStretch ((t.gap pos).stop + 1) ≤ n)
    (h : t.Agrees (t.seek endsStretch ((t.gap pos).stop + 1)) n) :
    t.Agrees pos n ∧ ∀ problem, .openEnd problem ∈ (t.upTo n).lexemesAt pos →
      .openEnd problem ∈
        (t.upTo n).lexemesAt (t.seek endsStretch ((t.gap pos).stop + 1)) := by
  have hopen : (t.gap pos).stop < t.size := by omega
  have hlow : (t.gap pos).stop + 1 ≤ t.seek endsStretch ((t.gap pos).stop + 1) := le_seek hopen
  have hgap : (t.upTo n).gap pos = t.gap pos := (agreeBelow_upTo t n).gap (by omega)
  have hseek : (t.upTo n).seek endsStretch ((t.gap pos).stop + 1) =
      t.seek endsStretch ((t.gap pos).stop + 1) := seek_upTo hle
  have hstart : (t.upTo n).inGap (t.gap pos).stop = false :=
    hgap ▸ inGap_gap_stop (t.upTo n) pos
  -- The cut text has the same gap, and in place of the stretch the tokens in it.
  obtain ⟨tokens, htokens, hall⟩ := lexemesAt_of_stretch hstart (Nat.le_refl _) (by omega)
  have hlexemes := lexemesAt_eq_gap_append (t.upTo n) pos
  rw [hgap, htokens, hseek] at hlexemes
  rw [hseek] at hall
  have hnone := gap_problem?_of_stop_lt hopen
  refine ⟨⟨?_, ?_⟩, ?_⟩
  · -- The comments are those of the gap and those behind the stretch.
    rw [hlexemes, strides_of_stretch hend]
    simp only [List.filterMap_append, filterMap_body?_gapLexemes, filterMap_body?_tokens hall,
      List.nil_append, Gap.filterMap_comment?_strides, List.filterMap_cons, Stride.comment?,
      List.filter_append, filter_comments_of_le hpos (show (t.gap pos).stop ≤ n by omega),
      h.comments]
  · -- A token in front of the next gap lies in the stretch.
    intro token span hmem
    rw [hlexemes] at hmem
    rw [strides_of_stretch hend]
    rcases List.mem_append.1 hmem with hmem | hmem
    · rcases mem_gapLexemes hmem with ⟨_, -, heq⟩ | ⟨_, -, heq⟩ <;> cases heq
    · rcases List.mem_append.1 hmem with hmem | hmem
      · obtain ⟨_, _, heq, hlies⟩ := hall _ hmem
        cases heq
        exact ⟨_, by simp, hlies⟩
      · obtain ⟨s, hs, hlies⟩ := h.tokens token span hmem
        exact ⟨s, by simp [hs], hlies⟩
  · -- A gap in front of a stretch has an end, so nothing is to be said of it.
    intro problem hmem
    rw [hlexemes] at hmem
    rcases List.mem_append.1 hmem with hmem | hmem
    · rcases mem_gapLexemes hmem with ⟨_, -, heq⟩ | ⟨_, hproblem, -⟩
      · cases heq
      · rw [hnone] at hproblem
        cases hproblem
    · rcases List.mem_append.1 hmem with hmem | hmem
      · obtain ⟨_, _, heq, -⟩ := hall _ hmem
        cases heq
      · exact hmem

/-- A scan of movetext agrees with the lexemes up to its last stretch, where nothing is left open.
-/
theorem agrees_last (hpos : pos ≤ t.size) {last : Nat} (hlast : last = pos)
    (problems : Array Problem) :
    t.Agrees pos (t.movetextFrom pos last problems).last ∧
      ∀ problem,
        .openEnd problem ∉ (t.upTo (t.movetextFrom pos last problems).last).lexemesAt pos := by
  -- By the recursion of the scan, with `last` the end of the last stretch so far.
  fun_induction movetextFrom t pos last problems with
  | case1 pos last problems gap problems' hend =>
    obtain rfl : last = pos := hlast
    have hnil : (t.upTo last).lexemesAt last = [] := lexemesAt_of_size_le (Nat.min_le_left ..)
    refine ⟨⟨?_, ?_⟩, ?_⟩
    · -- The scan is at its end, and the text is cut at `last`, where no comment begins.
      rw [hnil, strides_of_end hend, Gap.filterMap_comment?_strides]
      refine (List.filter_eq_nil_iff.2 fun body hbody => ?_).symm
      have := (comments_gap hpos (Array.mem_toList_iff.1 hbody)).1
      simpa using this
    · intro token span hmem
      rw [hnil] at hmem
      cases hmem
    · intro problem hmem
      rw [hnil] at hmem
      cases hmem
  | case2 pos last problems gap problems' hend next ih =>
    have hle := (movetextFrom_lies problems' (rfl : next = next) (seek_le_size ..)).le_last
    obtain ⟨hagrees, hnone⟩ := ih (seek_le_size ..) rfl
    obtain ⟨h, hopenEnd⟩ := hagrees.stretch hpos hend hle
    exact ⟨h, fun problem hmem => hnone problem (hopenEnd problem hmem)⟩

/-- A gap that reaches to the end of the text is all there is to read from where it starts. -/
theorem lexemesAt_of_gap_to_end (hgap : (t.gap pos).stop = t.size) :
    (t.upTo t.size).lexemesAt pos = ((t.upTo t.size).gapLexemes (t.gap pos)).toList := by
  have hsame : (t.upTo t.size).gap pos = t.gap pos :=
    (agreeBelow_upTo t t.size).gapFrom_of_le (Nat.le_of_eq hgap) fun _ => Nat.min_le_left ..
  rw [lexemesAt_eq_gap_append, hsame, hgap, lexemesAt_of_size_le (Nat.min_le_left ..),
    List.append_nil]

/-- A gap that reaches to the end of the text is read as it is stepped over, problem and all. -/
theorem agrees_of_gap_to_end (hpos : pos ≤ t.size) (hgap : (t.gap pos).stop = t.size) :
    t.Agrees pos t.size ∧ ∀ problem, .openEnd problem ∈ (t.upTo t.size).lexemesAt pos →
      (t.gap pos).problem? = some problem := by
  have hlexemes := lexemesAt_of_gap_to_end hgap
  refine ⟨⟨?_, ?_⟩, ?_⟩
  · rw [hlexemes, strides_of_end (.inl (Nat.le_of_eq hgap.symm)), filterMap_body?_gapLexemes,
      Gap.filterMap_comment?_strides, filter_comments_of_le hpos (Nat.le_of_eq hgap)]
  · intro token span hmem
    rw [hlexemes] at hmem
    rcases mem_gapLexemes hmem with ⟨_, -, heq⟩ | ⟨_, -, heq⟩ <;> cases heq
  · intro problem hmem
    rw [hlexemes] at hmem
    rcases mem_gapLexemes hmem with ⟨_, -, heq⟩ | ⟨_, hproblem, heq⟩
    · cases heq
    · cases heq
      exact hproblem

/-- Where a gap was stepped over the movetext goes on with a stretch, or it is over. -/
theorem last_of_gap_stop (t : Text) (pos : Nat) (problems : Array Problem) :
    (t.size ≤ (t.gap pos).stop ∨ t.opensTag (t.gap pos).stop = true) ∧
        (t.movetextFrom (t.gap pos).stop (t.gap pos).stop problems).last = (t.gap pos).stop ∨
      ¬(t.size ≤ (t.gap pos).stop ∨ t.opensTag (t.gap pos).stop = true) ∧
        ∃ problems', (t.movetextFrom (t.gap pos).stop (t.gap pos).stop problems).last =
          (t.movetextFrom (t.seek endsStretch ((t.gap pos).stop + 1))
            (t.seek endsStretch ((t.gap pos).stop + 1)) problems').last := by
  have hgap := gap_of_not_inGap (inGap_gap_stop t pos)
  rw [movetextFrom, hgap]
  simp only
  split
  · next hend => exact .inl ⟨hend, rfl⟩
  · next hend => exact .inr ⟨hend, _, rfl⟩

/-- Movetext starts in the text. -/
theorem movetext_start_le_size (h : e ∈ t.games strict) : e.movetext.start ≤ t.size := by
  obtain ⟨next, hlies⟩ := lies_of_mem_games h
  exact Nat.le_trans hlies.movetext_le (Nat.le_trans hlies.stop_le hlies.next_le)

/-- The movetext of a game ends with its last stretch. Without one it is a gap that reaches to the
end of the text. -/
theorem movetext_stop_cases (h : e ∈ t.games strict) :
    (t.gap e.movetext.start).stop = t.size ∧ e.movetext.stop = t.size ∨
      ¬(t.size ≤ (t.gap e.movetext.start).stop ∨
          t.opensTag (t.gap e.movetext.start).stop = true) ∧
        ∃ problems, e.movetext.stop =
          (t.movetextFrom (t.seek endsStretch ((t.gap e.movetext.start).stop + 1))
            (t.seek endsStretch ((t.gap e.movetext.start).stop + 1)) problems).last := by
  obtain ⟨hb, hscan⟩ := scanGame_of_mem_games h
  have hheader := header_extent strict hb
  have hmovetext : (t.scanGame strict e.tags.start).1.movetext = e.movetext :=
    congrArg (·.movetext) hscan
  have hstart : (t.header strict e.tags.start).movetext = e.movetext.start :=
    congrArg Span.start hmovetext
  have hstop := scanGame_movetext_stop strict hb
  have hgap := hheader.gap_movetext_stop
  rw [hmovetext, ← hgap, hstart] at hstop
  rw [hstart] at hgap
  rw [hstop]
  -- Either there is no token at all or there is a first stretch.
  rcases last_of_gap_stop t e.movetext.start #[] with ⟨hend, hlast⟩ | hstretch
  · -- Without a token the game reaches to the end of the text, for no header follows at once.
    have hclosed : t.opensTag (t.gap e.movetext.start).stop = false :=
      hgap ▸ if_neg hheader.not_bracket
    have hle : t.size ≤ (t.gap e.movetext.start).stop := by simpa [hclosed] using hend
    have hsize := Nat.le_antisymm (gap_stop_le (movetext_start_le_size h)) hle
    exact .inl ⟨hsize, hlast.trans hsize⟩
  · exact .inr hstretch

/-- The movetext of a game is read as it was stepped over, and what is never ended in it is the gap
behind the header. -/
theorem agrees_of_mem_games (h : e ∈ t.games strict) :
    t.Agrees e.movetext.start e.movetext.stop ∧
      ∀ problem, .openEnd problem ∈ t.lexemes e.movetext →
        (t.gap e.movetext.start).problem? = some problem := by
  have hpos := movetext_start_le_size h
  rw [lexemes, ← lexemesAt]
  rcases movetext_stop_cases h with ⟨hsize, hstop⟩ | ⟨hend, problems, hstop⟩
  · rw [hstop]
    exact agrees_of_gap_to_end hpos hsize
  · rw [hstop]
    have hle := (movetextFrom_lies problems
      (rfl : t.seek endsStretch ((t.gap e.movetext.start).stop + 1) = _) (seek_le_size ..)).le_last
    obtain ⟨hagrees, hnone⟩ := agrees_last (t := t) (seek_le_size ..)
      (rfl : t.seek endsStretch ((t.gap e.movetext.start).stop + 1) = _) problems
    obtain ⟨h, hopenEnd⟩ := hagrees.stretch hpos hend hle
    exact ⟨h, fun problem hmem => absurd (hopenEnd problem hmem) (hnone problem)⟩

end Text

end Scorebook
