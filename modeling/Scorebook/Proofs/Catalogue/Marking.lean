import Scorebook.Proofs.Catalogue.Joining
import Scorebook.Proofs.Catalogue.Telling

/-!
# Databases with a byte order mark

The mark of UTF-8 text that a database may start with is stepped over, so what is behind it is a
text moved along by the length of the mark. That is not quite as good as its standing at the very
beginning: a line begins behind a line break or at offset zero, and behind the mark is neither. So a
percent sign there escapes no line and is met as stray text, and it is only that sign that the mark
makes a difference to (`Text.index_marked_iff`).
-/

namespace Scorebook

/-- The bytes with a byte order mark in front. -/
def marked (content : ByteArray) : ByteArray :=
  ⟨Catalogue.byteOrderMark.toArray⟩ ++ content

namespace Text

variable {t u : Text} {d : Nat} {strict : Bool} {wanted pos next : Nat} {content : ByteArray}

/-- On the way to so many games the problems are the same, further on. -/
theorem Moved.problemsTo (h : Moved t u d) (strict : Bool) (wanted pos : Nat) :
    u.problemsTo strict wanted (pos + d) =
      (t.problemsTo strict wanted pos).map (Problem.moved d) := by
  have hitem (pos : Nat) := h.nextItem strict pos
  fun_induction Text.problemsTo t strict wanted pos with
  | case1 pos => rw [problemsTo_zero, List.map_nil]
  | case2 wanted pos hwanted problems hnext =>
    have hmoved := hitem pos
    rw [hnext] at hmoved
    exact problemsTo_of_nothing hwanted hmoved
  | case3 wanted pos hwanted next problems hnext ih =>
    have hmoved := hitem pos
    rw [hnext] at hmoved
    rw [problemsTo_of_stray hwanted hmoved, ih, List.map_append]
  | case4 wanted pos hwanted entry next problems hnext ih =>
    have hmoved := hitem pos
    rw [hnext] at hmoved
    rw [problemsTo_of_game hwanted hmoved, ih, List.map_append]

/-! ## Behind the mark -/

/-- Behind the mark the bytes are those of the content. -/
theorem getElem?_marked_add (content : ByteArray) (i : Nat) :
    (ofBytes (marked content))[i + 3]? = (ofBytes content)[i]? := by
  rw [marked, getElem?_ofBytes_append]
  exact if_neg (Nat.not_lt.2 (Nat.le_add_left 3 i))

/-- Marked content starts with the mark. -/
theorem holdsAt_marked (content : ByteArray) :
    (ofBytes (marked content)).holdsAt 0 Catalogue.byteOrderMark = true := by
  rw [holdsAt_iff]
  intro i c hc
  obtain ⟨hlt, -⟩ := List.getElem?_eq_some_iff.1 hc
  rw [Nat.zero_add, marked, getElem?_ofBytes_append]
  refine (if_pos hlt).trans ?_
  rw [getElem?_ofBytes_eq_data, List.getElem?_toArray, hc]

/-- A scan starts behind the mark. -/
theorem scanStart_marked (content : ByteArray) :
    Catalogue.scanStart (ofBytes (marked content)) 0 = 3 :=
  if_pos ⟨rfl, holdsAt_marked content⟩

/-- Without a mark a scan starts at the beginning. -/
theorem scanStart_of_unmarked (h : t.holdsAt 0 Catalogue.byteOrderMark = false) :
    Catalogue.scanStart t 0 = 0 :=
  if_neg fun hmark => Bool.eq_false_iff.1 h hmark.2

/-- Marked content is the content, moved, unless a percent sign loses its line. -/
theorem moved_marked (h : (ofBytes content)[0]? ≠ some Byte.percent) :
    Moved (ofBytes content) (ofBytes (marked content)) 3 :=
  moved_append _ h

/-- The games behind the mark are those of the content, moved along. -/
theorem games_marked (hmark : (ofBytes content).holdsAt 0 Catalogue.byteOrderMark = false)
    (h : (ofBytes content)[0]? ≠ some Byte.percent) (strict : Bool) :
    (ofBytes (marked content)).games strict =
      ((ofBytes content).games strict).map (Entry.moved 3) := by
  have hgames := (moved_marked h).gamesFrom strict 0
  rw [Nat.zero_add] at hgames
  rw [games, games, scannedGames, scannedGames, scanStart_marked, scanStart_of_unmarked hmark,
    hgames]
  apply List.ext_getElem?
  intro i
  simp only [List.getElem?_mapIdx, List.getElem?_map, Option.map_map]
  rfl

/-! ## A percent sign behind the mark -/

/-- What is met as stray text lies where the gap in front of it ends. -/
theorem start_eq_of_stray {span : Span}
    (h : .fault .unexpectedHeaderText span ∈ (t.nextItem strict pos).2) :
    span.start = (t.gap pos).stop := by
  -- No problem of a pair or of a gap is one of stray text.
  have hpair (p : Problem) (hp : p.IsOfPair) : p ≠ .fault .unexpectedHeaderText span := by
    rintro rfl
    obtain ⟨kind, _, heq, hkind⟩ := hp
    cases heq
    cases hkind
  rcases List.mem_append.1 h with hgap | hitem
  · exact absurd rfl (hpair _ (isOfPair_of_gapFrom (Option.mem_toList.1 hgap)))
  · split at hitem
    · cases hitem
    · split at hitem
      · refine absurd rfl (forall_scanGame strict
          (fun _ p _ hread => hpair p (isOfPair_of_tagPair hread))
          (fun _ p hgap => hpair p (isOfPair_of_gapFrom hgap)) (fun start p hp => ?_) _ _ hitem)
        obtain ⟨i, rfl, -⟩ := of_mem_tabsInTag hp
        exact nofun
      · cases List.mem_singleton.1 hitem
        rfl

/-- No stray text lies in front of the first gap. -/
theorem gap_stop_le_of_stray {span : Span}
    (h : .fault .unexpectedHeaderText span ∈ t.problemsTo strict wanted pos) :
    (t.gap pos).stop ≤ span.start := by
  -- In the first item the problem stands where the item begins, later ones begin behind it.
  have hhere {pos : Nat} {item : Item} {problems : List Problem}
      (hitem : t.nextItem strict pos = (item, problems))
      (h : .fault .unexpectedHeaderText span ∈ problems) : (t.gap pos).stop ≤ span.start := by
    have hmem : .fault .unexpectedHeaderText span ∈ (t.nextItem strict pos).2 := by rwa [hitem]
    exact Nat.le_of_eq (start_eq_of_stray hmem).symm
  have hnext {pos next : Nat} {item : Item} {problems : List Problem}
      (hitem : t.nextItem strict pos = (item, problems)) (hends : item.next? = some next)
      (hle : (t.gap next).stop ≤ span.start) : (t.gap pos).stop ≤ span.start := by
    have hat : (t.nextItem strict pos).1.next? = some next := by rwa [hitem]
    have hlt : (t.gap pos).stop < t.size ∧ (t.gap pos).stop < next := lt_of_next?_itemAt hat
    have := t.le_gap_stop next
    omega
  fun_induction Text.problemsTo t strict wanted pos with
  | case1 => cases h
  | case2 wanted pos hwanted problems hitem => exact hhere hitem h
  | case3 wanted pos hwanted next problems hitem ih
  | case4 wanted pos hwanted entry next problems hitem ih =>
    rcases List.mem_append.1 h with hfirst | hrest
    · exact hhere hitem hfirst
    · exact hnext hitem rfl (ih hrest)

/-- A percent sign at the very beginning belongs to the first gap. -/
theorem lt_gap_stop_of_percent (h : t[0]? = some Byte.percent) : 0 < (t.gap 0).stop := by
  rcases Nat.eq_zero_or_pos (t.gap 0).stop with hzero | hpos
  · have hgap := t.inGap_gap_stop 0
    rw [hzero, inGap_of_getElem? h] at hgap
    cases hgap
  · exact hpos

/-- Behind the mark a percent sign is stray text. -/
theorem nextItem_marked_of_percent (h : (ofBytes content)[0]? = some Byte.percent)
    (strict : Bool) :
    ∃ stop next, (ofBytes (marked content)).nextItem strict 3 =
      (.stray next, [.fault .unexpectedHeaderText ⟨3, stop⟩]) := by
  have hb : (ofBytes (marked content))[3]? = some Byte.percent :=
    (getElem?_marked_add content 0).trans h
  have hline : (ofBytes (marked content)).atLineStart 3 = false := by
    have hlast := holdsAt_iff.1 (holdsAt_marked content) 2 0xbf rfl
    rw [Nat.zero_add] at hlast
    rw [atLineStart, hlast]
    rfl
  have hgap : (ofBytes (marked content)).inGap 3 = false := by
    rw [inGap_of_getElem? hb, hline]
    rfl
  rw [nextItem, gap_of_not_inGap hgap]
  simp only [itemAt, hb]
  exact ⟨_, _, rfl⟩

/-! ## The statement -/

/-- A byte order mark makes no difference but that everything lies behind it: a request for all
games finds the same games and runs into the same problems, three bytes further on. The exception
is content that starts with a percent sign, which escapes its line at the beginning of a database
and is stray text behind the mark. -/
theorem index_marked_iff (strict : Bool)
    (hmark : (ofBytes content).holdsAt 0 Catalogue.byteOrderMark = false) :
    ((ofBytes (marked content)).index strict =
          ((ofBytes content).index strict).map (Entry.moved 3) ∧
        (ofBytes (marked content)).indexProblems strict =
          ((ofBytes content).indexProblems strict).map (Problem.moved 3)) ↔
      (ofBytes content)[0]? ≠ some Byte.percent := by
  constructor
  · -- In front of `%` the mark makes a line of stray text, which the content does not have there.
    rintro ⟨-, hproblems⟩ hpercent
    obtain ⟨stop, next, hitem⟩ := nextItem_marked_of_percent hpercent strict
    rw [indexProblems, indexProblems, scanStart_marked, scanStart_of_unmarked hmark,
      problemsTo_of_stray (by decide) hitem] at hproblems
    have hmem : .fault .unexpectedHeaderText ⟨3, stop⟩ ∈
        ((ofBytes content).problemsTo strict Catalogue.allGames 0).map (Problem.moved 3) := by
      rw [← hproblems]
      exact List.mem_append_left _ List.mem_cons_self
    obtain ⟨p, hp, hmoved⟩ := List.mem_map.1 hmem
    cases p with
    | fault kind span =>
      obtain ⟨rfl, hspan⟩ := Problem.fault.inj hmoved
      have hstart : span.start + 3 = 3 := congrArg Span.start hspan
      have hstop := gap_stop_le_of_stray hp
      -- In the content the line is escaped, so what is stray there begins behind it.
      have hescaped := lt_gap_stop_of_percent hpercent
      omega
    | _ => cases hmoved
  · -- Otherwise nothing depends on the mark, and all places are moved by it.
    intro hpercent
    have hproblems := (moved_marked hpercent).problemsTo strict Catalogue.allGames 0
    rw [Nat.zero_add] at hproblems
    refine ⟨?_, ?_⟩
    · rw [index_eq, index_eq, games_marked hmark hpercent, List.map_take]
    · rw [indexProblems, indexProblems, scanStart_marked, scanStart_of_unmarked hmark, hproblems]

/-- A byte order mark and `[A "b"]` with `1. e4 *` on a line of its own: the header lies behind the
mark. -/
theorem index_marked_iff_of_orderly :
    (ofBytes orderly).holdsAt 0 Catalogue.byteOrderMark = false ∧
      ((ofBytes (marked orderly)).index true).map Entry.tags = [⟨3, 10⟩] := by
  have hmark : (ofBytes orderly).holdsAt 0 Catalogue.byteOrderMark = false := by decide +kernel
  have hpercent : (ofBytes orderly)[0]? ≠ some Byte.percent := by decide +kernel
  refine ⟨hmark, ?_⟩
  rw [((index_marked_iff true hmark).2 hpercent).1]
  decide +kernel

/-- The line `%x`, and ` [A "b"] e4 *` behind a blank on the next. -/
def escapedFirst : ByteArray :=
  ⟨#[0x25, 0x78, 0x0a, 0x20, 0x5b, 0x41, 0x20, 0x22, 0x62, 0x22, 0x5d, 0x20, 0x65, 0x34, 0x20, 0x2a,
    0x0a]⟩

/-- Behind the mark the first line is not escaped, and the game below it is passed over with it. -/
theorem game_lost_behind_mark :
    (ofBytes escapedFirst).holdsAt 0 Catalogue.byteOrderMark = false ∧
      (ofBytes (marked escapedFirst)).index false ≠
        ((ofBytes escapedFirst).index false).map (Entry.moved 3) := by
  decide +kernel

end Text

end Scorebook
