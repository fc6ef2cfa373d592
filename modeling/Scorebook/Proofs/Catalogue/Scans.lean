import Scorebook.Proofs.Catalogue.Growing
import Scorebook.Proofs.Catalogue.Quiet

/-!
# Stretches of a scan

`Scans` is a scan from one place to another with the games it came upon, told as its steps. The
scan of a whole text can be cut at any of its games, and a stretch of it that lies in front of a
game that starts within the text, all headers in it being without problems, is a stretch of the scan
of every longer text.
-/

namespace Scorebook.Text

variable {t u : Text} {n m pos start stop next : Nat} {b : UInt8} {strict : Bool} {entry : Entry}
  {games : List (Entry × Nat)}

/-! ## Items -/

/-- Stray text is what stands behind a gap and does not start with a bracket. -/
theorem nextItem_eq_stray_iff :
    (t.nextItem strict pos).1 = .stray next ↔
      ∃ b, t[(t.gap pos).stop]? = some b ∧ b ≠ Byte.openBracket ∧
        t.resync (t.gap pos).stop = next := by
  simp only [nextItem, itemAt]
  cases hb : t[(t.gap pos).stop]? with
  | none => simp
  | some b => by_cases hbracket : b = Byte.openBracket <;> simp [hbracket]

/-- A game is what stands behind a gap and starts with a bracket. -/
theorem nextItem_eq_game_iff :
    (t.nextItem strict pos).1 = .game entry next ↔
      t[(t.gap pos).stop]? = some Byte.openBracket ∧
        (t.scanGame strict (t.gap pos).stop).1 = entry ∧
        (t.scanGame strict (t.gap pos).stop).2.1 = next := by
  simp only [nextItem, itemAt]
  cases hb : t[(t.gap pos).stop]? with
  | none => simp
  | some b => by_cases hbracket : b = Byte.openBracket <;> simp [hbracket]

/-- From places with the same item next, the scan finds the same games. -/
theorem gamesFrom_congr {pos' : Nat} (h : (t.nextItem strict pos).1 = (t.nextItem strict pos').1) :
    t.gamesFrom strict pos = t.gamesFrom strict pos' := by
  rcases hitem : t.nextItem strict pos with ⟨item, problems⟩
  rcases hitem' : t.nextItem strict pos' with ⟨item', problems'⟩
  rw [hitem, hitem'] at h
  obtain rfl : item = item' := h
  cases item with
  | nothing => rw [gamesFrom_of_nothing hitem, gamesFrom_of_nothing hitem']
  | stray next => rw [gamesFrom_of_stray hitem, gamesFrom_of_stray hitem']
  | game entry next => rw [gamesFrom_of_game hitem, gamesFrom_of_game hitem']

/-- It makes no difference whether a scan starts in front of a gap or behind it. -/
theorem gamesFrom_gap_stop (t : Text) (strict : Bool) (pos : Nat) :
    t.gamesFrom strict (t.gap pos).stop = t.gamesFrom strict pos := by
  apply gamesFrom_congr
  simp only [nextItem, gap_stop_gap_stop]

/-! ## Stretches -/

/-- The scan from the first place comes upon these games, and then to the second place. -/
inductive Scans (t : Text) (strict : Bool) : Nat → List (Entry × Nat) → Nat → Prop
  | here (pos : Nat) : Scans t strict pos [] pos
  | stray {pos next stop : Nat} {games : List (Entry × Nat)}
      (hitem : (t.nextItem strict pos).1 = .stray next) (hrest : Scans t strict next games stop) :
      Scans t strict pos games stop
  | game {pos next stop : Nat} {entry : Entry} {games : List (Entry × Nat)}
      (hitem : (t.nextItem strict pos).1 = .game entry next)
      (hrest : Scans t strict next games stop) :
      Scans t strict pos ((entry, next) :: games) stop

namespace Scans

/-- A scan can be made in two parts. -/
theorem append {games' : List (Entry × Nat)} {last : Nat} (h : Scans t strict pos games stop)
    (h' : Scans t strict stop games' last) : Scans t strict pos (games ++ games') last := by
  induction h with
  | here pos => exact h'
  | stray hitem _ ih => exact .stray hitem (ih h')
  | game hitem _ ih => exact .game hitem (ih h')

/-- A scan never goes back. -/
theorem le (h : Scans t strict pos games stop) : pos ≤ stop := by
  induction h with
  | here pos => exact Nat.le_refl pos
  | @stray pos next stop games hitem _ ih =>
    have hnext : (t.nextItem strict pos).1.next? = some next := by rw [hitem]; rfl
    have := (lt_of_next?_nextItem hnext).2
    omega
  | @game pos next stop entry games hitem _ ih =>
    have hnext : (t.nextItem strict pos).1.next? = some next := by rw [hitem]; rfl
    have := (lt_of_next?_nextItem hnext).2
    omega

/-- The games of a scan are those of its first stretch, and then those of what is left. -/
theorem gamesFrom_eq (h : Scans t strict pos games stop) :
    t.gamesFrom strict pos = games ++ t.gamesFrom strict stop := by
  induction h with
  | here pos => rfl
  | @stray pos next stop games hitem _ ih =>
    rw [gamesFrom_of_stray (Prod.ext hitem rfl), ih]
  | @game pos next stop entry games hitem _ ih =>
    rw [gamesFrom_of_game (Prod.ext hitem rfl), ih, List.cons_append]

end Scans

/-- A scan can be cut in front of any of its games. -/
theorem scans_take (h : (t.gamesFrom strict pos)[n]? = some (entry, next)) :
    ∃ start, Scans t strict pos ((t.gamesFrom strict pos).take n) start ∧
      (t.nextItem strict start).1 = .game entry next := by
  fun_induction gamesFrom t strict pos generalizing n with
  | case1 => cases h
  | case2 pos next' problems hitem ih =>
    obtain ⟨start, hscans, hgame⟩ := ih h
    exact ⟨start, .stray (by rw [hitem]) hscans, hgame⟩
  | case3 pos entry' next' problems hitem ih =>
    cases n with
    | zero =>
      cases h
      exact ⟨pos, .here pos, by rw [hitem]⟩
    | succ n =>
      obtain ⟨start, hscans, hgame⟩ := ih h
      exact ⟨start, .game (by rw [hitem]) hscans, hgame⟩

/-- A scan can be cut behind any of its games as well. -/
theorem scans_take_succ (h : (t.gamesFrom strict pos)[n]? = some (entry, next)) :
    Scans t strict pos ((t.gamesFrom strict pos).take (n + 1)) next := by
  obtain ⟨start, hscans, hgame⟩ := scans_take h
  rw [List.take_add_one, h]
  exact hscans.append (.game hgame (.here next))

/-! ## Numbers -/

/-- The entries of games in the order they were found, numbered from one. -/
def numbered (games : List (Entry × Nat)) : List Entry :=
  games.mapIdx fun i game => { game.1 with ordinal := i + 1 }

/-- Numbering keeps the number of games. -/
@[simp] theorem length_numbered (games : List (Entry × Nat)) :
    (numbered games).length = games.length :=
  List.length_mapIdx

/-- The first games are numbered alike. -/
theorem take_numbered (games : List (Entry × Nat)) (n : Nat) :
    (numbered games).take n = numbered (games.take n) := by
  apply List.ext_getElem?
  intro i
  simp only [numbered, List.getElem?_take, List.getElem?_mapIdx]
  split <;> rfl

/-- Numbering does not touch verdicts. -/
theorem verdict_of_numbered (h : ∀ e ∈ numbered games, e.verdict = .valid) :
    ∀ game ∈ games, game.1.verdict = .valid := by
  intro game hgame
  obtain ⟨i, hi⟩ := List.mem_iff_getElem?.1 hgame
  refine h { game.1 with ordinal := i + 1 } (List.mem_iff_getElem?.2 ⟨i, ?_⟩)
  simp only [numbered, List.getElem?_mapIdx, hi, Option.map_some]

/-- The games of a text are those that are scanned, numbered. -/
theorem games_eq_numbered (t : Text) (strict : Bool) :
    t.games strict = numbered (t.scannedGames strict) :=
  rfl

/-! ## Growing -/

namespace AgreeBelow

variable (h : t.AgreeBelow u n)

include h

/-- The next game is looked for in the same place if that is in the common part. -/
theorem resync (hlt : t.resync pos < n) : u.resync pos = t.resync pos := by
  fun_induction Text.resync t pos with
  | case1 pos hpos hbracket =>
    have hb := h.getElem? (getElem?_eq_some_iff.2 ⟨hpos, rfl⟩) hlt
    rw [resync_of_getElem? hb, h.atLineStart (Nat.le_of_lt hlt), if_pos hbracket]
  | case2 pos hpos hbracket ih =>
    have hle := lt_resync hpos
    have hb := h.getElem? (getElem?_eq_some_iff.2 ⟨hpos, rfl⟩) (by omega)
    rw [resync_of_getElem? hb, h.atLineStart (by omega), if_neg hbracket]
    exact ih hlt
  | case3 pos hpos =>
    have hsize := h.size_eq hlt
    rw [resync_of_size_le (by omega), hsize]

/-- The same bytes stand in the common part. -/
theorem holdsAt {bytes : List UInt8} (hle : pos + bytes.length ≤ n) :
    u.holdsAt pos bytes = t.holdsAt pos bytes := by
  induction bytes generalizing pos with
  | nil => rfl
  | cons b rest ih =>
    rw [List.length_cons] at hle
    rw [Text.holdsAt, Text.holdsAt, ← h pos (by omega), ih (by omega)]

/-- Stray text that ends in the common part is the same. -/
theorem stray (hitem : (t.nextItem strict pos).1 = .stray next) (hlt : next < n) :
    (u.nextItem strict pos).1 = .stray next := by
  obtain ⟨b, hb, hne, rfl⟩ := nextItem_eq_stray_iff.1 hitem
  have hstop := lt_resync (lt_size_of_getElem? hb)
  rw [nextItem_eq_stray_iff, h.gap (by omega), h.resync hlt]
  exact ⟨b, h.getElem? hb (by omega), hne, rfl⟩

end AgreeBelow

/-- A game in front of a seam within the shorter text is found in the longer one as well. -/
theorem Seam.game (h : Seam t u m) (hlt : m < t.size)
    (hitem : (t.nextItem strict pos).1 = .game entry m) (hvalid : entry.verdict = .valid) :
    (u.nextItem strict pos).1 = .game entry m := by
  obtain ⟨hb, hentry, hnext⟩ := nextItem_eq_game_iff.1 hitem
  have hbsize := lt_size_of_getElem? hb
  rw [nextItem_eq_game_iff, h.agree.gap hbsize,
    h.scanGame_of_lt hb hnext hlt (by rw [hentry]; exact hvalid)]
  exact ⟨h.agree.getElem? hb hbsize, hentry, hnext⟩

/-- A game that does not end the text ends where the next one starts. -/
theorem opensTag_of_game (hitem : (t.nextItem strict pos).1 = .game entry next)
    (hlt : next < t.size) : t.opensTag next = true := by
  obtain ⟨hb, rfl, rfl⟩ := nextItem_eq_game_iff.1 hitem
  exact (scanGame_lies strict hb).boundary.resolve_left (Nat.ne_of_lt hlt)

/-- What was scanned in front of a place within a text is scanned alike when the text has grown. -/
theorem Scans.grow (hagree : t.AgreeBelow u t.size) (h : Scans t strict pos games stop)
    (hvalid : ∀ game ∈ games, game.1.verdict = .valid) (hlt : stop < t.size) :
    Scans u strict pos games stop := by
  induction h with
  | here pos => exact .here pos
  | stray hitem hrest ih =>
    exact .stray (hagree.stray hitem (Nat.lt_of_le_of_lt hrest.le hlt)) (ih hvalid hlt)
  | @game pos next stop entry games hitem hrest ih =>
    obtain ⟨hentry, hothers⟩ := List.forall_mem_cons.1 hvalid
    have hnext := Nat.lt_of_le_of_lt hrest.le hlt
    have hseam : Seam t u next := .of_opensTag hagree (opensTag_of_game hitem hnext)
    exact .game (hseam.game hnext hitem hentry) (ih hothers hlt)

/-! ## The very beginning -/

/-- No byte of a byte order mark is a bracket. -/
theorem holdsAt_byteOrderMark_of_openBracket (hb : t[pos]? = some Byte.openBracket)
    (hlt : pos < Catalogue.byteOrderMark.length) :
    t.holdsAt 0 Catalogue.byteOrderMark = false := by
  cases hholds : t.holdsAt 0 Catalogue.byteOrderMark with
  | false => rfl
  | true =>
    have hmem := mem_of_holdsAt hholds (Nat.zero_le pos) (by omega) hb
    revert hmem
    decide

/-- A scan starts at a bracket at once. -/
theorem scanStart_of_openBracket (hb : t[pos]? = some Byte.openBracket) :
    Catalogue.scanStart t pos = pos := by
  rw [Catalogue.scanStart, if_neg]
  rintro ⟨rfl, hmark⟩
  rw [holdsAt_byteOrderMark_of_openBracket hb (by decide)] at hmark
  cases hmark

/-- A text that holds a bracket starts with a byte order mark exactly if it still does when it has
grown. -/
theorem scanStart_of_agreeBelow (h : t.AgreeBelow u t.size)
    (hb : t[pos]? = some Byte.openBracket) :
    Catalogue.scanStart u 0 = Catalogue.scanStart t 0 := by
  have hmark : u.holdsAt 0 Catalogue.byteOrderMark = t.holdsAt 0 Catalogue.byteOrderMark := by
    have hlt := lt_size_of_getElem? hb
    rcases Nat.lt_or_ge pos Catalogue.byteOrderMark.length with hfront | hbehind
    · rw [holdsAt_byteOrderMark_of_openBracket hb hfront,
        holdsAt_byteOrderMark_of_openBracket (h.getElem? hb hlt) hfront]
    · exact h.holdsAt (by omega)
  simp only [Catalogue.scanStart, hmark]

/-! ## The problems of a scan -/

/-- Where a scan runs into no problem, no game of it has any. -/
theorem scanGame_of_quiet {game : Entry × Nat} (h : t.problemsFrom strict pos = [])
    (hmem : game ∈ t.gamesFrom strict pos) :
    (t.scanGame strict game.1.tags.start).2.2 = [] := by
  fun_induction gamesFrom t strict pos with
  | case1 => cases hmem
  | case2 pos next problems hitem ih =>
    obtain ⟨-, hrest⟩ := problemsFrom_eq_nil_iff.1 h
    exact ih (hrest next (by rw [hitem]; rfl)) hmem
  | case3 pos entry next problems hitem ih =>
    obtain ⟨hnone, hrest⟩ := problemsFrom_eq_nil_iff.1 h
    rcases List.mem_cons.1 hmem with rfl | hmem
    · obtain ⟨hstart, hfound⟩ := found_of_nextItem hitem
      rw [nextItem, ← hstart, itemAt_of_openBracket strict hfound.opening] at hnone
      exact (List.append_eq_nil_iff.1 hnone).2
    · exact ih (hrest next (by rw [hitem]; rfl)) hmem

/-- A game without problems is valid. -/
theorem verdict_of_scanGame (h : (t.scanGame strict start).2.2 = []) :
    (t.scanGame strict start).1.verdict = .valid := by
  simp only [scanGame, List.append_eq_nil_iff] at h ⊢
  rw [h.1]
  rfl

/-- Where a scan has no problems all games are valid. -/
theorem verdict_of_quiet {game : Entry × Nat} (h : t.problemsFrom strict pos = [])
    (hmem : game ∈ t.gamesFrom strict pos) : game.1.verdict = .valid := by
  obtain ⟨n, hn⟩ := List.mem_iff_getElem?.1 hmem
  rw [← (found_of_getElem?_gamesFrom hn).1.entry_eq]
  exact verdict_of_scanGame (scanGame_of_quiet h hmem)

/-- Of the gaps in movetext only the last can be at fault. -/
theorem movetextFrom_problems {problems : Array Problem} {last : Nat} (hlast : last = pos) :
    (t.movetextFrom pos last problems).problems =
      problems.toList ++ (t.gap (t.movetextFrom pos last problems).last).problem?.toList := by
  fun_induction movetextFrom t pos last problems with
  | case1 pos last problems gap _ hend =>
    obtain rfl : last = pos := hlast
    exact Array.toList_appendList
  | case2 pos last problems gap problems' hend stop ih =>
    have hlt : (t.gap pos).stop < t.size := Nat.lt_of_not_le fun hsize => hend (.inl hsize)
    have hnone : gap.problem? = none := gap_problem?_of_stop_lt hlt
    rw [ih rfl, Array.toList_appendList, hnone, Option.toList_none, List.append_nil]

/-- The problems of a game are those of its header and that of the gap behind it. -/
theorem scanGame_problems (strict : Bool) (hb : t[start]? = some Byte.openBracket) :
    (t.scanGame strict start).2.2 =
      (t.header strict start).problems ++
        (t.gap (t.scanGame strict start).1.movetext.stop).problem?.toList := by
  rw [scanGame_movetext_stop strict hb]
  exact congrArg (_ ++ ·) (movetextFrom_problems rfl)

/-- The gap behind a game without problems has none either. -/
theorem gap_of_scanGame (hb : t[start]? = some Byte.openBracket)
    (h : (t.scanGame strict start).2.2 = []) :
    (t.gap (t.scanGame strict start).1.movetext.stop).problem? = none := by
  rw [scanGame_problems strict hb] at h
  exact Option.toList_eq_nil_iff.1 (List.append_eq_nil_iff.1 h).2

end Scorebook.Text
