import Scorebook.Game
import Scorebook.Proofs.Catalogue.Tiling
import Scorebook.Proofs.Header.Cutting

/-!
# The tags of a game

A game is read from the bytes in front of its movetext. Its tags are the ones that were there when
it was catalogued, although cataloguing saw the movetext as well.
-/

namespace Scorebook

namespace Text

variable {t : Text} {strict : Bool} {entry : Entry} {n : Nat}

/-- A slice in view is a slice of the text. -/
theorem slice_upTo {s : Span} (h : s.stop ≤ n) : (t.upTo n).slice s = t.slice s := by
  have hstop : min s.stop (min n t.size) = min s.stop t.size := by omega
  show t.bytes.extract s.start (min s.stop (min n t.size)) = _
  rw [hstop]
  rfl

/-- A tag in view is decoded as in the text. -/
theorem decode_upTo {tag : RawTag} (hname : tag.name.stop ≤ n) (hvalue : tag.value.stop ≤ n) :
    tag.decode (t.upTo n) = tag.decode t := by
  simp only [RawTag.decode, read, word, slice_upTo hname, slice_upTo hvalue]

/-- An entry of the full index is what scanning its header finds, but for its number. -/
theorem scanGame_of_mem_games (h : entry ∈ t.games strict) :
    t[entry.tags.start]? = some Byte.openBracket ∧
      (t.scanGame strict entry.tags.start).1 = { entry with ordinal := 0 } := by
  obtain ⟨next, hfound⟩ := Entry.IsOf.of_mem_games h
  exact ⟨hfound.opening, hfound.entry_eq⟩

/-- Where reading a game cuts the text off is where its movetext was found to start. -/
theorem header_of_scanGame {start : Nat} (hb : t[start]? = some Byte.openBracket)
    (h : (t.scanGame strict start).1 = { entry with ordinal := 0 }) :
    (t.header strict start).span = entry.tags ∧
      (t.header strict start).movetext = max entry.movetext.start entry.tags.stop := by
  have htags : (t.header strict start).span = entry.tags := congrArg Entry.tags h
  have hmovetext : (t.header strict start).movetext = entry.movetext.start :=
    congrArg (·.movetext.start) h
  have hle := (header_extent strict hb).stop_le_movetext
  rw [htags, hmovetext] at hle
  exact ⟨htags, by omega⟩

/-- What reading a game sees of its header is what cataloguing it saw. -/
theorem header_upTo_of_mem_games (h : entry ∈ t.games strict) :
    ((t.upTo (max entry.movetext.start entry.tags.stop)).header strict entry.tags.start).tags =
        (t.header strict entry.tags.start).tags ∧
      ((t.upTo (max entry.movetext.start entry.tags.stop)).header strict entry.tags.start).span =
        (t.header strict entry.tags.start).span := by
  obtain ⟨hb, hscan⟩ := scanGame_of_mem_games h
  obtain ⟨htags, hmovetext⟩ := header_of_scanGame hb hscan
  refine header_upTo hb ?_ (Nat.le_of_eq hmovetext.symm)
  rw [htags]
  exact Nat.le_max_right ..

end Text

/-- The entries of any catalogue belong to games of the text. -/
theorem Catalogue.Tracks.mem_games {c : Catalogue} {t : Text} {strict : Bool} {entry : Entry}
    (h : c.Tracks t strict) (hmem : entry ∈ c.entries) : entry ∈ t.games strict := by
  rw [← Array.mem_toList_iff, h.entries_eq] at hmem
  exact List.mem_of_mem_take hmem

/-- A game has the tags its header had when it was catalogued. -/
theorem Game.tags_read {buffer : Buffer} {strict : Bool} {entry : Entry}
    (h : entry ∈ buffer.text.games strict) (n : Nat) :
    (Game.read buffer strict n entry).tags =
      (buffer.text.header strict entry.tags.start).tags.map (·.decode buffer.text) := by
  obtain ⟨hb, hscan⟩ := Text.scanGame_of_mem_games h
  obtain ⟨htags, -⟩ := Text.header_of_scanGame hb hscan
  show List.map _ ((buffer.text.upTo _).header strict entry.tags.start).tags = _
  rw [(Text.header_upTo_of_mem_games h).1]
  apply List.map_congr_left
  intro tag htag
  obtain ⟨hname, hvalue⟩ := Text.header_tags_le hb htag
  rw [htags] at hname hvalue
  exact Text.decode_upTo (Nat.le_trans hname (Nat.le_max_right ..))
    (Nat.le_trans hvalue (Nat.le_max_right ..))

/-- The header of a game is read back as it was catalogued. Every entry a request finds was made by
a scan of its header with the whole text in view, and the scan that reads the game again, which sees
nothing of the movetext, comes upon the same raw pairs and ends at the same place; so the game has
the pairs that were catalogued. -/
theorem Game.header_reread (buffer : Buffer) (strict : Bool) (target : Nat) (r : Reporter)
    (entry : Entry) (hmem : entry ∈ (Catalogue.empty.ensure strict buffer target r).2.1.entries) :
    let whole := buffer.text.header strict entry.tags.start
    let seen := buffer.text.upTo (max entry.movetext.start entry.tags.stop)
    (buffer.text.scanGame strict entry.tags.start).1 = { entry with ordinal := 0 } ∧
      (seen.header strict entry.tags.start).tags = whole.tags ∧
      (seen.header strict entry.tags.start).span = whole.span ∧ whole.span = entry.tags ∧
      ∀ n, (Game.read buffer strict n entry).tags = whole.tags.map (·.decode buffer.text) := by
  have hgame : entry ∈ buffer.text.games strict :=
    ((Catalogue.Tracks.empty ..).ensured target r).tracks.mem_games hmem
  obtain ⟨hb, hscan⟩ := Text.scanGame_of_mem_games hgame
  obtain ⟨htags, hspan⟩ := Text.header_upTo_of_mem_games hgame
  exact ⟨hscan, htags, hspan, (Text.header_of_scanGame hb hscan).1, Game.tags_read hgame⟩

/-- A game whose second pair, `[C "d"`, looks for its bracket behind a comment of the movetext. -/
def Game.lookaheadSample : Buffer :=
  ⟨0, .ofBytes ⟨#[0x5b, 0x41, 0x20, 0x22, 0x62, 0x22, 0x5d, 0x0a, 0x5b, 0x43, 0x20, 0x22, 0x64,
    0x22, 0x0a, 0x7b, 0x78, 0x7d, 0x20, 0x65, 0x34, 0x20, 0x2a]⟩⟩

/-- That pair fails with the movetext in view and without it. -/
theorem Game.header_reread_of_lookahead :
    ∃ entry ∈ (Catalogue.empty.ensure true lookaheadSample Catalogue.allGames .empty).2.1.entries,
      entry.tags = ⟨0, 14⟩ ∧ entry.movetext.start = 15 ∧
        ((lookaheadSample.text.upTo 15).header true 0).tags = [⟨⟨1, 2⟩, ⟨4, 5⟩⟩] := by
  have hplaces : (Catalogue.empty.ensure true lookaheadSample Catalogue.allGames
      .empty).2.1.entries.toList.map (fun e => (e.tags, e.movetext.start)) = [(⟨0, 14⟩, 15)] := by
    decide +kernel
  obtain ⟨entry, hentries, hplace⟩ := List.map_eq_singleton_iff.1 hplaces
  obtain ⟨htags, hmovetext⟩ := Prod.mk.inj hplace
  have hmem : entry ∈ (Catalogue.empty.ensure true lookaheadSample Catalogue.allGames
      .empty).2.1.entries := by
    rw [← Array.mem_toList_iff, hentries]
    exact List.mem_singleton_self entry
  have hread := (Game.header_reread lookaheadSample true Catalogue.allGames .empty entry hmem).2.1
  simp only [htags, hmovetext] at hread
  refine ⟨entry, hmem, htags, hmovetext, hread.trans ?_⟩
  decide +kernel

end Scorebook
