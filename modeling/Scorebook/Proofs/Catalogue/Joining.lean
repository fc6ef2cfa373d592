import Scorebook.Proofs.Catalogue.Moving
import Scorebook.Proofs.Catalogue.Scans

/-!
# Joining databases

Two databases can be put behind each other if the first ends as one should, with a line and with a
game that has movetext and leaves no comment open, and the second starts with a header. The games of
the whole are then those of the first, followed by those of the second in their new places, be the
second as malformed as it may: whatever its scanners look for they look for behind the seam, and the
scanners of the first are kept out of it by the bracket it starts with.
-/

namespace Scorebook

/-- The game in a database that stands behind another one of `d` bytes and `n` games. -/
def Entry.behind (d n : Nat) (e : Entry) : Entry :=
  { e.moved d with ordinal := e.ordinal + n }

namespace Text

variable {t u : Text} {d m : Nat} {strict : Bool} {entry last : Entry}

/-- The text ends with the end of a line. -/
def EndsLine (t : Text) : Prop :=
  ∃ k, t.size = k + 1 ∧ t[k]? = some Byte.newline

/-- There is a token in the movetext: a byte that is no blank and lies in no comment and on no
escaped line. -/
def HasToken (t : Text) (entry : Entry) : Prop :=
  ∃ i, entry.movetext.start ≤ i ∧ i < entry.movetext.stop ∧ ¬ t.IsSpare entry.movetext.start i

/-- A game with a token has its header end in front of it. -/
theorem HasToken.header_next_lt {start : Nat} (h : t.HasToken (t.scanGame strict start).1)
    (hb : t[start]? = some Byte.openBracket) : (t.header strict start).next < t.size := by
  obtain ⟨i, hi, hlt, htoken⟩ := h
  have hlies := scanGame_lies strict hb
  have hextent := header_extent strict hb
  have hstop := hlies.stop_le
  have hnext := hlies.next_le
  rcases Nat.lt_or_ge i (t.header strict start).next with hfront | hbehind
  · refine absurd (isSpare_of_lt_gap_stop hi ?_) htoken
    show i < (t.gap (t.header strict start).movetext).stop
    rw [hextent.gap_movetext_stop]
    exact hfront
  · omega

/-- The last game of a text is found again in a longer one, if it has a token and no problem and
another game follows. -/
theorem Seam.scanGame_of_found (h : Seam t u t.size) (hfound : t.Found strict entry t.size)
    (hproblems : (t.scanGame strict entry.tags.start).2.2 = []) (htoken : t.HasToken entry) :
    u.scanGame strict entry.tags.start = t.scanGame strict entry.tags.start := by
  rw [← hfound.entry_eq] at htoken
  exact h.scanGame hfound.opening hfound.next_eq (verdict_of_scanGame hproblems)
    (htoken.header_next_lt hfound.opening) (gap_of_scanGame hfound.opening hproblems)

/-- The scan of a text that ends as it should is the first stretch of the scan of every longer
text in which another game follows. -/
theorem scans_of_seam (hseam : Seam t u t.size) (hquiet : t.scanProblems strict = [])
    (hlast : (t.games strict).getLast? = some last) (htoken : t.HasToken last) :
    Scans u strict (Catalogue.scanStart u 0) (t.scannedGames strict) t.size := by
  have hend := gap_of_getLast?_games hlast
  rw [List.getLast?_eq_getElem?] at hlast
  obtain ⟨entry, next, hget, rfl⟩ := getElem?_games_iff.1 hlast
  rw [length_games] at hget
  obtain ⟨hlen, -⟩ := List.getElem?_eq_some_iff.1 hget
  obtain ⟨hfound, -⟩ := found_of_getElem?_gamesFrom hget
  obtain rfl : next = t.size := hfound.lies.gap_stop.symm.trans hend
  have hopening := hfound.opening
  have hstart := lt_size_of_getElem? hopening
  -- Up to the seam both texts are scanned alike, and the last game ends there in both.
  have hgame := hseam.scanGame_of_found hfound
    (scanGame_of_quiet hquiet (List.mem_of_getElem? hget)) htoken
  obtain ⟨pos, hscans, hitem⟩ := scans_take hget
  have hgap : (t.gap pos).stop = entry.tags.start :=
    (found_of_nextItem (Prod.ext hitem rfl)).1.symm
  have hpos := le_gap_stop t pos
  -- The games in front of the last are cut off by a header, the last one by the seam.
  have hfront : Scans u strict (Catalogue.scanStart t 0)
      ((t.scannedGames strict).take ((t.scannedGames strict).length - 1)) pos :=
    hscans.grow hseam.agree
      (fun game hgame => verdict_of_quiet hquiet (List.mem_of_mem_take hgame)) (by omega)
  have hbehind : (u.nextItem strict pos).1 = .game entry t.size := by
    rw [nextItem_eq_game_iff, hseam.agree.gap (by omega), hgap, hgame]
    exact ⟨hseam.agree.getElem? hopening hstart, hfound.entry_eq, hfound.next_eq⟩
  have hall := hfront.append (.game hbehind (.here t.size))
  have hwhole : (t.scannedGames strict).take ((t.scannedGames strict).length - 1) ++
      [(entry, t.size)] = t.scannedGames strict := by
    rw [← Option.toList_some, ← hget, ← List.take_add_one, Nat.sub_add_cancel (by omega),
      List.take_length]
  rwa [hwhole, ← scanStart_of_agreeBelow hseam.agree hopening] at hall

/-! ## The second database in its place -/

/-- Behind another text a text stands as it is, unless it starts with a percent sign, which may or
may not be the first byte of its line there. -/
theorem moved_append (a : ByteArray) {b : ByteArray}
    (h : (ofBytes b)[0]? ≠ some Byte.percent) : Moved (ofBytes b) (ofBytes (a ++ b)) a.size where
  size_eq := by
    rw [size_ofBytes, size_ofBytes, ByteArray.size_append, Nat.add_comm]
  getElem?_eq := by
    intro i
    rw [getElem?_ofBytes_append, if_neg (by omega), Nat.add_sub_cancel]
  atLineStart_of_percent := fun hpercent => absurd hpercent h

/-- A text behind a seam adds its games to those in front. -/
theorem games_of_scans (hmoved : Moved t u d) (hopens : t[0]? = some Byte.openBracket)
    {games : List (Entry × Nat)} (h : Scans u strict (Catalogue.scanStart u 0) games d) :
    u.games strict = numbered games ++ (t.games strict).map (Entry.behind d games.length) := by
  have hrest := hmoved.gamesFrom strict 0
  rw [Nat.zero_add] at hrest
  rw [games_eq_numbered, games_eq_numbered, scannedGames, h.gamesFrom_eq, hrest, scannedGames,
    scanStart_of_openBracket hopens]
  simp only [numbered, List.mapIdx_append]
  congr 1
  apply List.ext_getElem?
  intro i
  simp only [List.getElem?_mapIdx, List.getElem?_map, Option.map_map]
  congr 1
  funext game
  obtain ⟨entry, next⟩ := game
  simp only [Function.comp, Entry.behind, Entry.moved, Nat.add_right_comm]

/-- Cut at the number of games a request can ask for, the games of both are as many of them as a
request would find of either. -/
theorem take_append_behind (games games' : List Entry) (d n : Nat) :
    (games ++ games'.map (Entry.behind d games.length)).take n =
      (games.take n ++ (games'.take n).map (Entry.behind d (games.take n).length)).take n := by
  rcases Nat.lt_or_ge games.length n with hlt | hge
  · rw [List.take_of_length_le (Nat.le_of_lt hlt), List.take_append, List.take_append,
      ← List.map_take, ← List.map_take, List.take_take, Nat.min_eq_left (Nat.sub_le ..)]
  · have hlen : (games.take n).length = n := List.length_take_of_le hge
    rw [List.take_append_of_le_length hge, List.take_append_of_le_length (Nat.le_of_eq hlen.symm),
      List.take_take, Nat.min_self]

/-- The games of two databases put behind each other are those of the first and, moved behind it and
numbered on, those of the second; what a request for all games finds is put together likewise. The
first has to end as a database should, with a line and with a game that has movetext, and to be
without problems. All that is asked of the second is that it starts with a header. -/
theorem games_append {a b : ByteArray} {strict : Bool} {last : Entry}
    (hend : (ofBytes a).EndsLine) (hquiet : (ofBytes a).scanProblems strict = [])
    (hlast : ((ofBytes a).games strict).getLast? = some last) (htoken : (ofBytes a).HasToken last)
    (hopens : (ofBytes b).opensTag 0 = true) :
    (ofBytes (a ++ b)).games strict = (ofBytes a).games strict ++
        ((ofBytes b).games strict).map
          (Entry.behind a.size ((ofBytes a).games strict).length) ∧
      (ofBytes (a ++ b)).index strict = ((ofBytes a).index strict ++
        ((ofBytes b).index strict).map
          (Entry.behind a.size ((ofBytes a).index strict).length)).take Catalogue.allGames := by
  -- A header begins at the seam, so the games behind it are those of `b`, moved.
  have hb := getElem?_of_opensTag hopens
  have hmoved := moved_append a (b := b) (by rw [hb]; decide)
  have hbehind : (ofBytes (a ++ b)).opensTag a.size = true := by
    rw [← Nat.zero_add a.size, hmoved.opensTag]
    exact hopens
  have hseam : Seam (ofBytes a) (ofBytes (a ++ b)) (ofBytes a).size :=
    ⟨agreeBelow_append a b, hbehind, .inr ⟨rfl, hend⟩⟩
  have hgames := games_of_scans hmoved hb (scans_of_seam hseam hquiet hlast htoken)
  rw [← length_games, ← games_eq_numbered] at hgames
  refine ⟨hgames, ?_⟩
  rw [index_eq, index_eq, index_eq, hgames]
  exact take_append_behind ..

/-- One game, ended as it should be: `[A "b"]` and `1. e4 *` on a line of its own. -/
def orderly : ByteArray :=
  ⟨#[0x5b, 0x41, 0x20, 0x22, 0x62, 0x22, 0x5d, 0x0a, 0x31, 0x2e, 0x20, 0x65, 0x34, 0x20, 0x2a,
    0x0a]⟩

/-- One malformed game: the value in `[C "d` is not closed, nor is the comment `{e5` below it. -/
def broken : ByteArray :=
  ⟨#[0x5b, 0x43, 0x20, 0x22, 0x64, 0x0a, 0x7b, 0x65, 0x35]⟩

/-- The broken game is found behind the orderly one, five bytes of tags and three of movetext. -/
theorem games_append_broken :
    ((ofBytes orderly).games true).getLast? =
        some ⟨1, ⟨0, 7⟩, ⟨8, 15⟩, 0xeceb78ac954ccdda, .valid⟩ ∧
      ((ofBytes (orderly ++ broken)).games true).map
        (fun e => (e.ordinal, e.tags, e.movetext, e.verdict)) =
      [(1, ⟨0, 7⟩, ⟨8, 15⟩, .valid), (2, ⟨16, 21⟩, ⟨22, 25⟩, .illegalTagValue)] := by
  have hlast : ((ofBytes orderly).games true).getLast? =
      some ⟨1, ⟨0, 7⟩, ⟨8, 15⟩, 0xeceb78ac954ccdda, .valid⟩ := by decide +kernel
  have hgames := (games_append (a := orderly) (b := broken) ⟨15, rfl, by decide +kernel⟩
    (by decide +kernel) hlast ⟨8, by decide, by decide, by decide +kernel⟩ (by decide +kernel)).1
  refine ⟨hlast, ?_⟩
  rw [hgames]
  decide +kernel

end Text

end Scorebook
