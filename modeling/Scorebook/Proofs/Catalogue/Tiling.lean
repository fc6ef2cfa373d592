import Scorebook.Proofs.Catalogue.Extents
import Scorebook.Proofs.Catalogue.Pieces

/-!
# The games of a text tile it

From the first header on, the entries of a full index leave nothing out and take nothing twice:
header, movetext and gap of one game are followed by the header of the next, and the last gap ends
with the text. The boundaries are the ones a reader would draw, for no place outside comments and
escaped lines that could start a header lies inside the movetext of another game.
-/

namespace Scorebook

/-- The games in this order, with the gaps behind them, make up the text from the first on. -/
structure Tiling (t : Text) (games : List Entry) : Prop where
  opening : ∀ e ∈ games, t[e.tags.start]? = some Byte.openBracket
  ordered : ∀ e ∈ games, e.tags.start < e.tags.stop ∧ e.tags.stop ≤ e.movetext.start ∧
    e.movetext.start ≤ e.movetext.stop ∧ e.movetext.stop ≤ t.size
  blank : ∀ e ∈ games, ∀ i, e.tags.stop ≤ i → i < e.movetext.start →
    t[i]?.any Byte.isBlank = true
  gap_next : ∀ n e e', games[n]? = some e → games[n + 1]? = some e' →
    (t.gap e.movetext.stop).stop = e'.tags.start
  gap_last : ∀ e, games.getLast? = some e → (t.gap e.movetext.stop).stop = t.size
  opensTag : ∀ n e, games[n + 1]? = some e → t.opensTag e.tags.start = true
  /-- No header is swallowed by the movetext in front of it. -/
  no_header : ∀ e ∈ games, ∀ i, e.movetext.start ≤ i → i < e.movetext.stop →
    t.zone e.movetext.start i = .plain → t.opensTag i = false
  /-- What is in no game is blank or lies aside. -/
  nothing_lost : ∀ first, games.head? = some first → ∀ i, first.tags.start ≤ i → i < t.size →
    ∃ e ∈ games, e.tags.start ≤ i ∧ i < (t.gap e.movetext.stop).stop ∧
      (i < e.tags.stop ∨ e.movetext.start ≤ i ∧ i < e.movetext.stop ∨
        t[i]?.any Byte.isBlank = true ∨ e.movetext.stop ≤ i ∧ t.IsAside e.movetext.stop i)

namespace Text

variable {t : Text} {strict : Bool} {start pos next i n : Nat} {entry : Entry}

/-! ## From game to game -/

/-- The number of a game does not matter for where it lies. -/
theorem Lies.numbered (h : t.Lies start entry next) (n : Nat) :
    t.Lies start { entry with ordinal := n } next :=
  ⟨h.opening, h.tags_start, h.start_lt, h.tags_le, h.movetext_le, h.stop_le, h.next_le, h.blank,
    h.gap_stop, h.boundary, h.no_header, h.checksum_eq⟩

/-- Every byte between a game and the next belongs to the game, is blank or lies aside. -/
theorem Lies.accounts (h : t.Lies start entry next) (hlt : i < next) :
    i < entry.tags.stop ∨ entry.movetext.start ≤ i ∧ i < entry.movetext.stop ∨
      t[i]?.any Byte.isBlank = true ∨
      entry.movetext.stop ≤ i ∧ t.IsAside entry.movetext.stop i := by
  rcases Nat.lt_or_ge i entry.tags.stop with htags | htags
  · exact .inl htags
  · rcases Nat.lt_or_ge i entry.movetext.start with hbetween | hmovetext
    · exact .inr (.inr (.inl (h.blank i htags hbetween)))
    · rcases Nat.lt_or_ge i entry.movetext.stop with hinside | hbehind
      · exact .inr (.inl ⟨hmovetext, hinside⟩)
      · rcases isSpare_of_lt_gap_stop hbehind (h.gap_stop.symm ▸ hlt) with hblank | haside
        · exact .inr (.inr (.inl hblank))
        · exact .inr (.inr (.inr ⟨hbehind, haside⟩))

/-- A bracket starts a game. -/
theorem itemAt_of_openBracket (strict : Bool) (hb : t[pos]? = some Byte.openBracket) :
    t.itemAt strict pos = (.game (t.scanGame strict pos).1 (t.scanGame strict pos).2.1,
      (t.scanGame strict pos).2.2) := by
  unfold itemAt
  rw [hb]
  rfl

/-- A game that starts at once is what comes next. -/
theorem nextItem_of_openBracket (strict : Bool) (hb : t[pos]? = some Byte.openBracket) :
    t.nextItem strict pos = (.game (t.scanGame strict pos).1 (t.scanGame strict pos).2.1,
      (t.scanGame strict pos).2.2) := by
  rw [nextItem, gap_of_openBracket hb]
  simp [itemAt_of_openBracket strict hb]

/-- Behind the text nothing comes next. -/
theorem nextItem_of_size_le (strict : Bool) (h : t.size ≤ pos) :
    t.nextItem strict pos = (.nothing, []) := by
  simp [nextItem, gap_of_not_inGap (inGap_of_size_le h), itemAt, getElem?_eq_none_iff.2 h]

/-- The game was found by scanning at its header. -/
structure Found (t : Text) (strict : Bool) (entry : Entry) (next : Nat) : Prop where
  opening : t[entry.tags.start]? = some Byte.openBracket
  entry_eq : (t.scanGame strict entry.tags.start).1 = entry
  next_eq : (t.scanGame strict entry.tags.start).2.1 = next

/-- A game that is found lies as a game should. -/
theorem Found.lies (h : t.Found strict entry next) : t.Lies entry.tags.start entry next := by
  have hlies := scanGame_lies strict h.opening
  rwa [h.entry_eq, h.next_eq] at hlies

/-- A game that comes next starts behind the gap and is found there. -/
theorem found_of_nextItem {problems : List Problem}
    (h : t.nextItem strict pos = (.game entry next, problems)) :
    entry.tags.start = (t.gap pos).stop ∧ t.Found strict entry next := by
  have hitem : (t.itemAt strict (t.gap pos).stop).1 = .game entry next := congrArg Prod.fst h
  by_cases hb : t[(t.gap pos).stop]? = some Byte.openBracket
  · have hstart := (scanGame_lies strict hb).tags_start
    rw [itemAt_of_openBracket strict hb] at hitem
    obtain ⟨hentry, hnext⟩ := Item.game.inj hitem
    rw [hentry] at hstart
    exact ⟨hstart, hstart ▸ hb, hstart ▸ hentry, hstart ▸ hnext⟩
  · unfold itemAt at hitem
    split at hitem
    · cases hitem
    · next b hget =>
      have hne : b ≠ Byte.openBracket := by
        rintro rfl
        exact hb hget
      rw [if_neg hne] at hitem
      cases hitem

/-- From a bracket on the first game is the one that starts there. -/
theorem gamesFrom_of_openBracket (hb : t[pos]? = some Byte.openBracket) :
    t.gamesFrom strict pos = ((t.scanGame strict pos).1, (t.scanGame strict pos).2.1) ::
      t.gamesFrom strict (t.scanGame strict pos).2.1 :=
  gamesFrom_of_game (nextItem_of_openBracket strict hb)

/-- Each game of a scan was found at its header, and the later ones lie ahead of it. -/
theorem found_of_getElem?_gamesFrom (h : (t.gamesFrom strict pos)[n]? = some (entry, next)) :
    t.Found strict entry next ∧
      t.gamesFrom strict next = (t.gamesFrom strict pos).drop (n + 1) := by
  fun_induction gamesFrom t strict pos generalizing n with
  | case1 => cases h
  | case2 pos next' problems hitem ih => exact ih h
  | case3 pos entry' next' problems hitem ih =>
    cases n with
    | zero =>
      cases h
      exact ⟨(found_of_nextItem hitem).2, rfl⟩
    | succ n => exact ih h

/-- A scan that starts at the header of a game finds that game and all later ones. -/
theorem gamesFrom_tags_start (h : (t.gamesFrom strict pos)[n]? = some (entry, next)) :
    t.gamesFrom strict entry.tags.start = (t.gamesFrom strict pos).drop n := by
  obtain ⟨hfound, hrest⟩ := found_of_getElem?_gamesFrom h
  obtain ⟨hlt, hget⟩ := List.getElem?_eq_some_iff.1 h
  rw [gamesFrom_of_openBracket hfound.opening, hfound.entry_eq, hfound.next_eq, hrest,
    List.drop_eq_getElem_cons hlt, hget]

/-- Behind a game comes the next one at once, or the text is over. -/
theorem Lies.next_game (strict : Bool) (h : t.Lies start entry next) :
    (next = t.size ∧ t.gamesFrom strict next = []) ∨
      (t.opensTag next = true ∧ ∃ entry' next' rest, entry'.tags.start = next ∧
        t.gamesFrom strict next = (entry', next') :: rest) := by
  rcases h.boundary with rfl | hopens
  · left
    exact ⟨rfl, gamesFrom_of_nothing (nextItem_of_size_le strict (Nat.le_refl _))⟩
  · right
    have hb := getElem?_of_opensTag hopens
    exact ⟨hopens, _, _, _, (scanGame_lies strict hb).tags_start, gamesFrom_of_openBracket hb⟩

/-- From a header on, every place lies in some game or in the gap behind it. -/
theorem exists_game_of_openBracket (strict : Bool) (hb : t[pos]? = some Byte.openBracket)
    (hi : pos ≤ i) (hlt : i < t.size) :
    ∃ game ∈ t.gamesFrom strict pos, game.1.tags.start ≤ i ∧ i < game.2 := by
  fun_induction gamesFrom t strict pos with
  | case1 pos problems hitem =>
    rw [nextItem_of_openBracket strict hb] at hitem
    cases hitem
  | case2 pos next problems hitem ih =>
    rw [nextItem_of_openBracket strict hb] at hitem
    cases hitem
  | case3 pos entry next problems hitem ih =>
    obtain ⟨hstart, hfound⟩ := found_of_nextItem hitem
    rw [gap_of_openBracket hb] at hstart
    rcases Nat.lt_or_ge i next with hinside | hpast
    · exact ⟨_, List.mem_cons_self, by rw [hstart]; exact hi, hinside⟩
    · rcases hfound.lies.boundary with hend | hopens
      · omega
      · obtain ⟨game, hmem, hgame⟩ := ih (getElem?_of_opensTag hopens) hpast
        exact ⟨game, List.mem_cons_of_mem _ hmem, hgame⟩

/-! ## The tiling -/

/-- Each game is numbered by its place among those that are scanned. -/
theorem getElem?_games_iff :
    (t.games strict)[n]? = some entry ↔
      ∃ entry' next, (t.scannedGames strict)[n]? = some (entry', next) ∧
        entry = { entry' with ordinal := n + 1 } := by
  simp only [games, List.getElem?_mapIdx, Option.map_eq_some_iff, Prod.exists]
  exact exists_congr fun _ => exists_congr fun _ => and_congr_right fun _ => eq_comm

/-- Every entry of the full index lies in the text as a game does. -/
theorem lies_of_getElem?_games (h : (t.games strict)[n]? = some entry) :
    ∃ next, t.Lies entry.tags.start entry next ∧
      t.gamesFrom strict next = (t.scannedGames strict).drop (n + 1) := by
  obtain ⟨entry', next, hget, rfl⟩ := getElem?_games_iff.1 h
  obtain ⟨hfound, hrest⟩ := found_of_getElem?_gamesFrom hget
  exact ⟨next, hfound.lies.numbered (n + 1), hrest⟩

/-- Each game of a text lies as a game should. -/
theorem lies_of_mem_games (h : entry ∈ t.games strict) :
    ∃ next, t.Lies entry.tags.start entry next := by
  obtain ⟨n, hn⟩ := List.mem_iff_getElem?.1 h
  obtain ⟨next, hlies, -⟩ := lies_of_getElem?_games hn
  exact ⟨next, hlies⟩

/-- The entry behind another one starts where the gap between them ends. -/
theorem next_of_getElem?_games {entry' : Entry} (h : (t.games strict)[n]? = some entry)
    (h' : (t.games strict)[n + 1]? = some entry') :
    (t.gap entry.movetext.stop).stop = entry'.tags.start ∧
      t.opensTag entry'.tags.start = true := by
  obtain ⟨next, hlies, hrest⟩ := lies_of_getElem?_games h
  obtain ⟨found, next', hget, rfl⟩ := getElem?_games_iff.1 h'
  have hhead : (t.gamesFrom strict next)[0]? = some (found, next') := by
    rw [hrest, List.getElem?_drop]
    exact hget
  rcases hlies.next_game strict with ⟨-, hnil⟩ | ⟨hopens, e, _, _, hstart, hcons⟩
  · rw [hnil] at hhead
    cases hhead
  · rw [hcons] at hhead
    cases hhead
    rw [hlies.gap_stop, hstart]
    exact ⟨rfl, hopens⟩

/-- Behind the last game there is nothing but a gap. -/
theorem gap_of_getLast?_games (h : (t.games strict).getLast? = some entry) :
    (t.gap entry.movetext.stop).stop = t.size := by
  rw [List.getLast?_eq_getElem?] at h
  obtain ⟨hlt, -⟩ := List.getElem?_eq_some_iff.1 h
  obtain ⟨next, hlies, hrest⟩ := lies_of_getElem?_games h
  have hnil : t.gamesFrom strict next = [] := by
    rw [hrest, List.drop_eq_nil_iff, ← length_games]
    omega
  rcases hlies.next_game strict with ⟨hend, -⟩ | ⟨-, e, _, _, -, hcons⟩
  · rw [hlies.gap_stop, hend]
  · rw [hnil] at hcons
    cases hcons

/-- From the first game on every byte is in a game, a blank, or aside of the movetext in front of
it. -/
theorem nothing_lost_of_games {first : Entry} (h : (t.games strict).head? = some first)
    (hi : first.tags.start ≤ i) (hlt : i < t.size) :
    ∃ e ∈ t.games strict, e.tags.start ≤ i ∧ i < (t.gap e.movetext.stop).stop ∧
      (i < e.tags.stop ∨ e.movetext.start ≤ i ∧ i < e.movetext.stop ∨
        t[i]?.any Byte.isBlank = true ∨ e.movetext.stop ≤ i ∧ t.IsAside e.movetext.stop i) := by
  rw [List.head?_eq_getElem?] at h
  obtain ⟨first', next, hget, rfl⟩ := getElem?_games_iff.1 h
  obtain ⟨hfound, -⟩ := found_of_getElem?_gamesFrom hget
  obtain ⟨⟨e, next'⟩, hmem, hstart, hnext⟩ :=
    exists_game_of_openBracket strict hfound.opening hi hlt
  rw [gamesFrom_tags_start hget, List.drop_zero] at hmem
  obtain ⟨n, hn⟩ := List.mem_iff_getElem?.1 hmem
  have hlies := (found_of_getElem?_gamesFrom hn).1.lies.numbered (n + 1)
  refine ⟨{ e with ordinal := n + 1 },
    List.mem_iff_getElem?.2 ⟨n, getElem?_games_iff.2 ⟨e, next', hn, rfl⟩⟩, hstart, ?_,
    hlies.accounts hnext⟩
  rw [hlies.gap_stop]
  exact hnext

/-- The full index tiles its text, and a request for all games finds it, up to the number of games
a request can ask for. -/
theorem games_tile (buffer : Buffer) (strict : Bool) :
    (Catalogue.empty.ensure strict buffer Catalogue.allGames .empty).2.1.entries.toList =
      (buffer.text.games strict).take Catalogue.allGames ∧
    Tiling buffer.text (buffer.text.games strict) := by
  refine ⟨(Catalogue.Tracks.empty ..).entries_ensure rfl (Nat.zero_le _), ?_⟩
  refine {
    opening := ?_
    ordered := ?_
    blank := ?_
    gap_next := fun n e e' h h' => (next_of_getElem?_games h h').1
    gap_last := fun e he => gap_of_getLast?_games he
    opensTag := ?_
    no_header := ?_
    nothing_lost := fun first h i hi hlt => nothing_lost_of_games h hi hlt }
  · intro e he
    obtain ⟨_, hlies⟩ := lies_of_mem_games he
    exact hlies.opening
  · intro e he
    obtain ⟨_, hlies⟩ := lies_of_mem_games he
    exact ⟨hlies.start_lt, hlies.tags_le, hlies.movetext_le,
      Nat.le_trans hlies.stop_le hlies.next_le⟩
  · intro e he
    obtain ⟨_, hlies⟩ := lies_of_mem_games he
    exact hlies.blank
  · intro n e he
    obtain ⟨hn, -⟩ := List.getElem?_eq_some_iff.1 he
    have hprev := List.getElem?_eq_getElem (Nat.lt_of_succ_lt hn)
    exact (next_of_getElem?_games hprev he).2
  · intro e he
    obtain ⟨_, hlies⟩ := lies_of_mem_games he
    exact hlies.no_header

end Text

/-! ## What an entry was made of -/

/-- The entry was made by a scan of this text, whatever its number. -/
def Entry.IsOf (e : Entry) (t : Text) (strict : Bool) : Prop :=
  ∃ next, t.Found strict { e with ordinal := 0 } next

namespace Entry.IsOf

variable {e : Entry} {t : Text} {strict : Bool} {pos next : Nat}

/-- A game of the text lies as a game should, under whatever number. -/
theorem lies (h : e.IsOf t strict) : ∃ next, t.Lies e.tags.start e next := by
  obtain ⟨next, hfound⟩ := h
  exact ⟨next, hfound.lies.numbered e.ordinal⟩

/-- A game that is found is one of the text, under whatever number. -/
theorem of_found (h : t.Found strict e next) (n : Nat) : { e with ordinal := n }.IsOf t strict := by
  refine ⟨next, h.opening, h.entry_eq.trans ?_, h.next_eq⟩
  rw [← h.entry_eq]
  rfl

/-- A game that comes next is one of the text. -/
theorem of_nextItem {problems : List Problem}
    (h : t.nextItem strict pos = (.game e next, problems)) (n : Nat) :
    { e with ordinal := n }.IsOf t strict :=
  of_found (Text.found_of_nextItem h).2 n

/-- A catalogued game is one of the text. -/
theorem of_mem_games (h : e ∈ t.games strict) : e.IsOf t strict := by
  obtain ⟨n, hn⟩ := List.mem_iff_getElem?.1 h
  obtain ⟨entry, next, hget, rfl⟩ := Text.getElem?_games_iff.1 hn
  exact of_found (Text.found_of_getElem?_gamesFrom hget).1 (n + 1)

end Entry.IsOf

end Scorebook
