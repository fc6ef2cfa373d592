import Scorebook.Proofs.Movetext.Agreement
import Scorebook.Proofs.Movetext.Remarks

/-!
# The comments of an unfinished game

A game without a termination marker is read to the end of its movetext, and that is where its last
stretch ends, or where the text does if there is no stretch. So every comment in front of that place
is taken in and kept in the tree, also one in front of the first move or in a variation. The gap
behind the last stretch is stepped over by cataloguing alone. What is commented there belongs to no
game.
-/

namespace Scorebook

namespace Reader

variable {strict : Bool} {stop : Nat} {r : Reader} {lexemes : List Lexeme}

/-- A pass that meets no marker and nothing critical takes in everything. -/
theorem taken_of_unended (hmarker : (r.run strict stop lexemes).marker = none)
    (hproblems : Recoverable (r.run strict stop lexemes).problems) :
    r.taken true lexemes = lexemes := by
  induction lexemes generalizing r with
  | nil => rfl
  | cons lexeme rest ih =>
    cases hstep : r.step? lexeme with
    | some r' =>
      rw [run_of_step hstep] at hmarker hproblems
      rw [taken_of_step hstep, ih hmarker hproblems]
    | none =>
      -- A pass ends early at a marker, or at a parenthesis that closes nothing.
      exfalso
      rw [run_of_halt hstep] at hmarker hproblems
      obtain ⟨token, span, rfl⟩ := exists_token_of_halt hstep
      have hunmatched (h : .fault .unmatchedCloseParen span ∈
          (r.halt strict stop rest (.token token span)).problems) : False := by
        cases hproblems _ h
      cases token with
      | marker outcome =>
        rw [halt, finishAt_eq] at hmarker
        cases hmarker
      | badMarker => cases hmarker
      | _ => exact hunmatched (Array.mem_toList_iff.2 Array.mem_push_self)

end Reader

namespace Text

variable {t : Text} {pos n : Nat} {strict : Bool} {e : Entry}

/-! ## The texts of comments -/

/-- The texts of the comments with these bodies, as far as they have some. -/
def remarks (t : Text) (bodies : List Span) : List String :=
  (bodies.map t.readTrimmed).filter (!·.isEmpty)

theorem remarks_append (t : Text) (bodies more : List Span) :
    t.remarks (bodies ++ more) = t.remarks bodies ++ t.remarks more := by
  rw [remarks, List.map_append, List.filter_append, remarks, remarks]

theorem trimEnd_le (t : Text) (start stop : Nat) : t.trimEnd start stop ≤ stop := by
  induction stop with
  | zero => exact Nat.le_refl _
  | succ stop ih =>
    rw [trimEnd]
    split
    · exact Nat.le_succ_of_le ih
    · exact Nat.le_refl _

/-- Blanks are trimmed alike in a view that shows them. -/
theorem trimEnd_upTo {start stop : Nat} (h : stop ≤ n) :
    (t.upTo n).trimEnd start stop = t.trimEnd start stop := by
  induction stop with
  | zero => rfl
  | succ stop ih => rw [trimEnd, trimEnd, ih (Nat.le_of_succ_le h), getElem?_upTo,
      if_pos (Nat.lt_of_succ_le h)]

/-- A range in view is read as it is. -/
theorem readTrimmed_upTo {s : Span} (h : s.stop ≤ n) :
    (t.upTo n).readTrimmed s = t.readTrimmed s := by
  have hseek : ((t.upTo n).upTo s.stop).seek (!Byte.isBlank ·) s.start =
      (t.upTo s.stop).seek (!Byte.isBlank ·) s.start :=
    (agreeBelow_upTo t n).seek_upTo h ..
  have htrimmed : (t.upTo n).trimmed s = t.trimmed s := by
    rw [trimmed, trimmed, hseek, trimEnd_upTo h]
  rw [readTrimmed, readTrimmed, htrimmed, read, read,
    slice_upTo (Nat.le_trans (trimEnd_le ..) h)]

theorem comments_gapFrom_stop_le {comments : Array Span} :
    ∀ body ∈ (t.gapFrom pos comments).comments, body ∈ comments ∨ body.stop ≤ t.size := by
  -- By the recursion of `gapFrom`: a comment ends with its line, at its brace or with the text.
  fun_induction gapFrom t pos comments with
  | case1 | case4 | case8 => exact fun _ hbody => .inl hbody
  | case2 _ _ _ _ _ ih => exact ih
  | case3 _ _ _ _ _ _ _ _ ih => exact ih
  | case5 pos comments eol _ _ _ ih =>
    intro body hbody
    rcases ih body hbody with hold | hle
    · rcases Array.mem_push.1 hold with hold | rfl
      · exact .inl hold
      · exact .inr (seek_le_size ..)
    · exact .inr hle
  | case6 pos comments _ _ _ _ _ _ close _ ih =>
    intro body hbody
    rcases ih body hbody with hold | hle
    · rcases Array.mem_push.1 hold with hold | rfl
      · exact .inl hold
      · exact .inr (seek_le_size ..)
    · exact .inr hle
  | case7 =>
    intro body hbody
    rcases Array.mem_push.1 hbody with hold | rfl
    · exact .inl hold
    · exact .inr (Nat.le_refl _)

/-- What the lexemes of a text hold of a comment is the trimmed text of its body. -/
theorem comment_of_mem_lexemesAt {body : Span} {text : String}
    (h : .comment body text ∈ t.lexemesAt pos) :
    body.stop ≤ t.size ∧ text = t.readTrimmed body := by
  -- By induction on what is left behind `pos`: a gap and a token are read from it in turn.
  induction hleft : t.size - pos using Nat.strongRecOn generalizing pos with
  | ind left ih =>
    rw [lexemesAt_eq] at h
    rcases List.mem_append.1 h with hmem | hmem
    · rcases mem_gapLexemes hmem with ⟨body', hbody, heq⟩ | ⟨_, -, heq⟩
      · cases heq
        exact ⟨(comments_gapFrom_stop_le body hbody).resolve_left (Array.not_mem_empty body), rfl⟩
      · cases heq
    · split at hmem
      · cases hmem
      · next first hfirst =>
        have hgap := t.le_gap_stop pos
        have hlt := lt_size_of_getElem? hfirst
        have htoken := lt_tokenAt hfirst
        rcases List.mem_cons.1 hmem with heq | hmem
        · cases heq
        · exact ih _ (by omega) hmem rfl

/-- The comments read in a range that have some text are those its bodies have. -/
theorem filterMap_remark?_lexemes (t : Text) (s : Span) :
    (t.lexemes s).filterMap Lexeme.remark? =
      t.remarks ((t.lexemes s).filterMap Lexeme.body?) := by
  have hcomments (body : Span) (text : String) (h : .comment body text ∈ t.lexemes s) :
      text = t.readTrimmed body := by
    have hmem : .comment body text ∈ (t.upTo s.stop).lexemesAt s.start := h
    obtain ⟨hstop, htext⟩ := comment_of_mem_lexemesAt hmem
    rw [htext, readTrimmed_upTo (Nat.le_trans hstop (Nat.min_le_left ..))]
  generalize t.lexemes s = lexemes at hcomments ⊢
  induction lexemes with
  | nil => rfl
  | cons lexeme rest ih =>
    have ih := ih fun body text h => hcomments body text (List.mem_cons_of_mem _ h)
    rw [List.filterMap_cons, List.filterMap_cons, ih]
    cases lexeme with
    | comment body text =>
      obtain rfl := hcomments body text List.mem_cons_self
      cases hempty : (t.readTrimmed body).isEmpty <;>
        simp [Lexeme.remark?, Lexeme.body?, remarks, hempty]
    | _ => rfl

/-! ## The comments behind the last stretch -/

/-- The bodies of the comments between a place and the next header or the end of the text. -/
def bodiesFrom (t : Text) (pos : Nat) : List Span :=
  (t.strides pos).filterMap Stride.comment?

theorem bodiesFrom_of_end (h : t.size ≤ (t.gap pos).stop ∨ t.opensTag (t.gap pos).stop = true) :
    t.bodiesFrom pos = (t.gap pos).comments.toList := by
  rw [bodiesFrom, strides_of_end h, Gap.filterMap_comment?_strides]

theorem bodiesFrom_of_stretch
    (h : ¬(t.size ≤ (t.gap pos).stop ∨ t.opensTag (t.gap pos).stop = true)) :
    t.bodiesFrom pos = (t.gap pos).comments.toList ++
      t.bodiesFrom (t.seek endsStretch ((t.gap pos).stop + 1)) := by
  rw [bodiesFrom, strides_of_stretch h, List.filterMap_append, Gap.filterMap_comment?_strides]
  rfl

/-- The comments that start up to `n`, and those of the gap that starts there, are all of them. -/
def SplitsAt (t : Text) (pos n : Nat) : Prop :=
  t.bodiesFrom pos = (t.bodiesFrom pos).filter (·.start ≤ n) ++ (t.gap n).comments.toList

/-- What is split behind a stretch is split in front of it. -/
theorem SplitsAt.stretch (hpos : pos ≤ t.size)
    (hend : ¬(t.size ≤ (t.gap pos).stop ∨ t.opensTag (t.gap pos).stop = true))
    (hle : t.seek endsStretch ((t.gap pos).stop + 1) ≤ n)
    (h : t.SplitsAt (t.seek endsStretch ((t.gap pos).stop + 1)) n) : t.SplitsAt pos n := by
  have hlow : (t.gap pos).stop + 1 ≤ t.seek endsStretch ((t.gap pos).stop + 1) :=
    le_seek (by omega)
  rw [SplitsAt, bodiesFrom_of_stretch hend, List.filter_append,
    filter_comments_of_le hpos (by omega), List.append_assoc, ← h]

/-- A scan of movetext splits its comments at its last stretch. -/
theorem splitsAt_last (hpos : pos ≤ t.size) {last : Nat} (hlast : last = pos)
    (problems : Array Problem) : t.SplitsAt pos (t.movetextFrom pos last problems).last := by
  fun_induction movetextFrom t pos last problems with
  | case1 pos last problems gap problems' hend =>
    -- There is no stretch any more, so all that is left lies behind the last one.
    obtain rfl : last = pos := hlast
    have hnone : (t.bodiesFrom last).filter (·.start ≤ last) = [] := by
      rw [bodiesFrom_of_end hend, List.filter_eq_nil_iff]
      intro body hbody
      have := (comments_gap hpos (Array.mem_toList_iff.1 hbody)).1
      simpa using this
    rw [SplitsAt, hnone, List.nil_append]
    exact bodiesFrom_of_end hend
  | case2 pos last problems gap problems' hend next ih =>
    have hle := (movetextFrom_lies problems' (rfl : next = next) (seek_le_size ..)).le_last
    exact (ih (seek_le_size ..) rfl).stretch hpos hend hle

/-- The comments of a game are split where its movetext ends. -/
theorem splitsAt_movetext_stop (h : e ∈ t.games strict) :
    t.SplitsAt e.movetext.start e.movetext.stop := by
  have hpos := movetext_start_le_size h
  rcases movetext_stop_cases h with ⟨hsize, hstop⟩ | ⟨hend, problems, hstop⟩
  · -- All comments are in front of the end of the text, and none behind it.
    have hnone : (t.gap t.size).comments = #[] := by
      rw [gap_of_not_inGap (inGap_of_size_le (Nat.le_refl t.size))]
    have hbodies := bodiesFrom_of_end (t := t) (.inl (Nat.le_of_eq hsize.symm))
    rw [hstop, SplitsAt, hnone, hbodies, filter_comments_of_le hpos (Nat.le_of_eq hsize)]
    exact (List.append_nil _).symm
  · rw [hstop]
    have hle := (movetextFrom_lies problems
      (rfl : t.seek endsStretch ((t.gap e.movetext.start).stop + 1) = _) (seek_le_size ..)).le_last
    exact (splitsAt_last (seek_le_size ..) rfl problems).stretch hpos hend hle

/-- The blanks behind a header hold no comments. -/
theorem bodiesFrom_tags_stop (h : e ∈ t.games strict) :
    t.bodiesFrom e.tags.stop = t.bodiesFrom e.movetext.start := by
  obtain ⟨next, hlies⟩ := lies_of_mem_games h
  rw [bodiesFrom, bodiesFrom, strides, strides,
    gap_of_blanks hlies.tags_le hlies.blank]

/-! ## The movetext of an unfinished game -/

/-- The tree of an unfinished game keeps the comments behind its header, except those behind its
last stretch. -/
theorem collects_unfinished (h : e ∈ t.games strict) {strict' : Bool}
    (hmarker : (t.score strict' e.movetext).marker = none)
    (hproblems : Recoverable (t.score strict' e.movetext).problems) :
    ∃ inside, t.bodiesFrom e.tags.stop = inside ++ (t.gap e.movetext.stop).comments.toList ∧
      Collects (t.score strict' e.movetext).mainLine.remarks (t.remarks inside) := by
  refine ⟨(t.bodiesFrom e.movetext.start).filter (·.start ≤ e.movetext.stop), ?_, ?_⟩
  · rw [bodiesFrom_tags_stop h]
    exact splitsAt_movetext_stop h
  · have hbodies : (t.lexemes e.movetext).filterMap Lexeme.body? = _ :=
      (agrees_of_mem_games h).1.comments
    have hcollects := t.collects_score strict' e.movetext
    rwa [Reader.taken_of_unended hmarker hproblems, filterMap_remark?_lexemes, hbodies] at hcollects

end Text

end Scorebook
