import Scorebook.Proofs.Database.Sessions
import Scorebook.Proofs.Game.Tags
import Scorebook.Proofs.Written.Games

/-!
# Written databases are read back

Whatever was asked of a database before, one that was written plainly is counted and catalogued as
the games it was written from, and every game it hands out has the tags that were written.
-/

namespace Scorebook.WrittenGame

variable {t : Text} {strict : Bool} {pos i : Nat} {g : WrittenGame} {games : List WrittenGame}

/-! ## Where the games are -/

/-- Each game that is written has one place. -/
theorem length_placed (t : Text) (pos : Nat) (games : List WrittenGame) :
    (placed t pos games).length = games.length := by
  induction games generalizing pos with
  | nil => rfl
  | cons g rest ih => rw [placed, List.length_cons, List.length_cons, ih]

/-- The place of a game is behind all games in front of it. -/
theorem getElem?_placed (t : Text) (pos : Nat) (h : games[i]? = some g) :
    ∃ next, (placed t pos games)[i]? =
      some (g.entry t (pos + (writeAll (games.take i)).length), next) := by
  induction games generalizing pos i with
  | nil => cases h
  | cons first rest ih =>
    cases i with
    | zero =>
      cases h
      exact ⟨_, rfl⟩
    | succ i =>
      obtain ⟨next, hnext⟩ := ih (pos + first.write.length) h
      rw [List.take_succ_cons, writeAll_cons, List.length_append, ← Nat.add_assoc]
      exact ⟨next, hnext⟩

/-- Each of the games stands behind those in front of it. -/
theorem stands_of_writeAll (h : t.holdsAt pos (writeAll games) = true) (hget : games[i]? = some g) :
    g.Stands t (pos + (writeAll (games.take i)).length) := by
  induction games generalizing pos i with
  | nil => cases hget
  | cons first rest ih =>
    rw [writeAll_cons, Text.holdsAt_append, Bool.and_eq_true] at h
    cases i with
    | zero =>
      cases hget
      exact stands_of_holdsAt h.1
    | succ i =>
      rw [List.take_succ_cons, writeAll_cons, List.length_append, ← Nat.add_assoc]
      exact ih h.2 hget

/-! ## The text of a database -/

/-- The text of a database of these games. -/
def text (games : List WrittenGame) : Text :=
  .ofBytes (writeAll games).toByteArray

/-- What is written starts with a bracket and not with a byte order mark. -/
theorem scanStart_text (games : List WrittenGame) : Catalogue.scanStart (text games) 0 = 0 := by
  have hfirst : (text games)[0]? ≠ some 0xef := by
    cases games with
    | nil => rw [text, Text.getElem?_ofBytes]; nofun
    | cons g rest =>
      have hheld := Text.holdsAt_ofBytes (writeAll (g :: rest))
      rw [writeAll_cons, Text.holdsAt_append, Bool.and_eq_true] at hheld
      have hb := Text.getElem?_of_opensTag (stands_of_holdsAt hheld.1).opensTag
      rw [text, writeAll_cons, hb]
      decide
  apply if_neg
  rintro ⟨_, hmark⟩
  apply hfirst
  simp only [Catalogue.byteOrderMark, Text.holdsAt, Bool.and_eq_true, beq_iff_eq] at hmark
  exact hmark.1

/-- A scan finds the games that were written, each in its place, and no problem. -/
theorem scan_text (games : List WrittenGame) (strict : Bool) :
    (text games).scannedGames strict = placed (text games) 0 games ∧
      (text games).scanProblems strict = [] := by
  rw [Text.scannedGames, Text.scanProblems, scanStart_text]
  exact gamesFrom_writeAll (Text.holdsAt_ofBytes _) (by simp [text])

/-- The games of the text are the games it was written from. -/
theorem games_text (strict : Bool) (h : games[i]? = some g) :
    ((text games).games strict)[i]? =
      some { g.entry (text games) (writeAll (games.take i)).length with ordinal := i + 1 } := by
  obtain ⟨next, hplaced⟩ := getElem?_placed (text games) 0 h
  rw [Nat.zero_add] at hplaced
  exact Text.getElem?_games_iff.2 ⟨_, next, by rw [(scan_text games strict).1, hplaced], rfl⟩

-- One tag, `[A "\""]`, and the movetext `*`.
example :
    ((text [⟨[⟨[0x41], [0x22], by decide, by decide, List.forall_mem_singleton.2 (by decide),
      List.forall_mem_singleton.2 (by decide)⟩], [0x2a], by decide, by decide,
      List.forall_mem_singleton.2 (by decide), List.forall_mem_singleton.2 (by decide), by decide,
      by decide⟩]).games true).map (fun e => (e.ordinal, e.tags, e.movetext)) =
      [(1, ⟨0, 8⟩, ⟨10, 11⟩)] := by
  decide +kernel

/-- Each game stands in the text of all of them. -/
theorem stands_text (h : games[i]? = some g) :
    g.Stands (text games) (writeAll (games.take i)).length := by
  have hstands := stands_of_writeAll (t := text games) (Text.holdsAt_ofBytes _) h
  rwa [Nat.zero_add] at hstands

/-- As many games are catalogued as were written. -/
theorem length_games_text (games : List WrittenGame) (strict : Bool) :
    ((text games).games strict).length = games.length := by
  rw [Text.length_games, (scan_text games strict).1, length_placed]

/-! ## What is found -/

/-- A header ends with a bracket and its line. -/
theorem header_eq_append (g : WrittenGame) :
    ∃ before, g.header = before ++ [Byte.closeBracket, Byte.newline] := by
  obtain ⟨init, tag, htags⟩ : ∃ init tag, g.tags = init ++ [tag] :=
    ⟨_, _, (List.dropLast_concat_getLast g.tags_ne).symm⟩
  refine ⟨lines (init.map WrittenTag.write) ++ (Byte.openBracket :: tag.name ++
    Byte.space :: Byte.quote :: escape tag.value ++ [Byte.quote]), ?_⟩
  rw [header, htags]
  simp [lines, WrittenTag.write]

/-- The entry is that of the game `g`, written from `start` on as number `n`. -/
structure Indexed (g : WrittenGame) (t : Text) (start n : Nat) (entry : Entry) : Prop where
  ordinal : entry.ordinal = n
  verdict : entry.verdict = .valid
  tags : entry.tags = g.tagSpan start
  first_bracket : t[entry.tags.start]? = some Byte.openBracket
  last_bracket : t[entry.tags.stop - 1]? = some Byte.closeBracket
  movetext : entry.movetext = g.movetextSpan start
  word : t.word entry.movetext = g.movetext

/-- A game that stands in a place is catalogued with it. -/
theorem Stands.indexed (h : g.Stands t pos) (n : Nat) :
    g.Indexed t pos n { g.entry t pos with ordinal := n } where
  ordinal := rfl
  verdict := rfl
  tags := rfl
  first_bracket := Text.getElem?_of_opensTag h.opensTag
  last_bracket := by
    obtain ⟨before, hheader⟩ := g.header_eq_append
    have hheld := h.header
    rw [hheader, Text.holdsAt_append, Bool.and_eq_true] at hheld
    simp only [Text.holdsAt, Bool.and_eq_true, beq_iff_eq] at hheld
    refine Text.getElem?_of_eq ?_ hheld.2.1
    simp only [entry, tagSpan, hheader, List.length_append, List.length_cons, List.length_nil]
    omega
  movetext := rfl
  word := Text.word_of_holdsAt h.movetext

/-- A game that was read from the text has the tags that were written. -/
theorem tags_of_isOf {game : Game} (h : game.IsOf (text games) strict) :
    ∃ i g, game.number = i + 1 ∧ games[i]? = some g ∧ game.tags = g.tags.map WrittenTag.pair := by
  obtain ⟨key, i, entry, hentry, rfl⟩ := h
  have hlt : i < games.length := by
    rw [← length_games_text games strict]
    exact (List.getElem?_eq_some_iff.1 hentry).1
  have hget := List.getElem?_eq_getElem hlt
  have hstands := stands_text hget
  refine ⟨i, games[i], rfl, hget, ?_⟩
  rw [Game.tags_read (List.mem_of_getElem? hentry)]
  rw [games_text strict hget] at hentry
  cases hentry
  show List.map _ ((text games).header strict _).tags = _
  simp only [entry, tagSpan, hstands.header_eq]
  exact decode_rawTags hstands.header

/-- A plainly written database is read back as what was written. However it is kept and opened, and
whatever was asked of it before, all its games are counted, as far as a count can go; the catalogue
then has each of them under its number, valid and exactly where it was written; and a game that is
handed out has the names and values that were written. -/
theorem read_back (games : List WrittenGame) (origin : Origin) (name : String) (strict : Bool)
    (prefetch : UInt32) :
    ∃ db, origin.open name (writeAll games).toByteArray ⟨strict, prefetch.toNat⟩ = .ok db ∧
      ∀ (requests : List Database.Request) (modified : Nat),
        let current := db.performAll (writeAll games).toByteArray requests
        let disk : Disk := .ok ⟨(writeAll games).toByteArray, modified⟩
        (current.gameCount disk).1 = .ok (min games.length Catalogue.allGames) ∧
        (∀ i g, games[i]? = some g → i < Catalogue.allGames →
          ∃ entry, (current.gameCount disk).2.catalogue.entry? (i + 1) = some entry ∧
            g.Indexed (.ofBytes (writeAll games).toByteArray) (writeAll (games.take i)).length
              (i + 1) entry) ∧
        ∀ (n : UInt32) reading, (current.readGame disk n.toNat).1 = .ok (some reading) →
          ∃ i g, n.toNat = i + 1 ∧ games[i]? = some g ∧
            reading.game.tags = g.tags.map WrittenTag.pair := by
  obtain ⟨db, hopen, hsteady⟩ :=
    Database.open_steady origin name (writeAll games).toByteArray strict prefetch
  refine ⟨db, hopen, ?_⟩
  intro requests modified
  have hcurrent := hsteady.performAll requests
  -- What was written holds no problem, so all games are counted.
  obtain ⟨hcount, hentries⟩ :=
    hcurrent.gameCount_of_quiet (scan_text games strict).2 modified
  refine ⟨?_, ?_, ?_⟩
  · rw [hcount, ← length_games_text games strict]
    rfl
  · intro i g hget hlt
    refine ⟨_, ?_, (stands_text hget).indexed (i + 1)⟩
    have hentry := congrArg (·[i]?) hentries
    simp only [List.getElem?_take, if_pos hlt] at hentry
    rw [Database.entries, Array.getElem?_toList] at hentry
    exact hentry.trans (games_text strict hget)
  · intro n reading hreading
    have hreads := hcurrent.readGame (Database.toNat_le_allGames n) modified
    rw [hreading] at hreads
    obtain ⟨hisOf, hnumber⟩ := hreads.isOf reading rfl
    have hwritten : reading.game.IsOf (text games) strict := hisOf
    obtain ⟨i, g, hi, hget, htags⟩ := tags_of_isOf hwritten
    exact ⟨i, g, hnumber.symm.trans hi, hget, htags⟩

end Scorebook.WrittenGame
