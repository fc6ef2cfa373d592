import Scorebook.Proofs.Catalogue.Order
import Scorebook.Proofs.Catalogue.Scans

/-!
# Going on with a text that has grown

A catalogue that was made of a text need not be made anew when the text has grown. If it was
complete, its last game is forgotten, for it may go on in what was added; all others end with the
header of the next game and are what they were. That takes headers without problems: a malformed
pair may have been cut off by the old end of the text, however far in front of it it stands.
-/

namespace Scorebook.Catalogue

variable {t u : Text} {c : Catalogue} {strict : Bool} {pos next n : Nat} {entry : Entry}

/-! ## Catalogues over one text -/

/-- The catalogue was made of this text by requests for games, each with a reporter of its own. -/
inductive Reached (t : Text) (strict : Bool) : Catalogue → Prop
  | empty : Reached t strict .empty
  | ensure {c : Catalogue} (h : Reached t strict c) (key : Nat) {target : Nat}
      (htarget : target ≤ allGames) (r : Reporter) :
      Reached t strict (c.ensure strict ⟨key, t⟩ target r).2.1

/-- Scanning goes on where the last game ended, or at the beginning if there is none. -/
def ResumesBehind (c : Catalogue) (t : Text) (strict : Bool) : Prop :=
  match c.entries.size with
  | 0 => c.resume = 0
  | n + 1 => ∃ entry, (t.scannedGames strict)[n]? = some (entry, c.resume)

/-- A catalogue that takes in a game would resume behind it. -/
theorem ResumesBehind.add (h : c.Ahead t strict pos) {problems : List Problem}
    (hitem : t.nextItem strict pos = (.game entry next, problems)) :
    (c.add entry next).ResumesBehind t strict := by
  rw [ResumesBehind, Catalogue.add, Array.size_push]
  exact ⟨entry, h.getElem?_scannedGames hitem⟩

/-- After a request the catalogue would resume behind its last game. -/
theorem ResumesBehind.ensure {buffer : Buffer} (htracks : c.Tracks buffer.text strict)
    (h : c.ResumesBehind buffer.text strict) (target : Nat) (r : Reporter) :
    (c.ensure strict buffer target r).2.1.ResumesBehind buffer.text strict := by
  by_cases hdone : c.complete = true ∨ target ≤ c.entries.size
  · rw [ensure_of_done hdone]
    exact h
  · rw [ensure_snd_fst_of_open hdone]
    obtain ⟨_, -, hresumes⟩ := extendFrom_keeps
      (Q := fun pos c => c.Ahead buffer.text strict pos ∧ c.ResumesBehind buffer.text strict)
      strict buffer target r
      (fun _ _ _ hc _ => hc)
      (fun _ _ _ _ hc hitem => ⟨hc.1.stray hitem, hc.2⟩)
      (fun _ _ _ _ _ hc _ hitem => ⟨hc.1.add hitem, .add hc.1 hitem⟩)
      ⟨htracks.ahead, h⟩
    exact hresumes

/-! ## What is reached -/

namespace Reached

/-- A catalogue that is reached tracks its text. -/
theorem tracks (h : Reached t strict c) : c.Tracks t strict := by
  induction h with
  | empty => exact .empty t strict
  | ensure _ key htarget r ih => exact (ih.ensured _ r).tracks

/-- A catalogue that is reached would resume behind its last game. -/
theorem resumes (h : Reached t strict c) : c.ResumesBehind t strict := by
  induction h with
  | empty => rfl
  | ensure h key htarget r ih => exact ih.ensure h.tracks _ r

/-- A catalogue that is reached holds no more games than can be asked for. -/
theorem size_le (h : Reached t strict c) : c.entries.size ≤ allGames := by
  induction h with
  | empty => exact Nat.zero_le _
  | @ensure c h key target htarget r ih =>
    exact Nat.le_trans (size_ensure_le c strict ⟨key, t⟩ target r) (Nat.max_le.2 ⟨ih, htarget⟩)

end Reached

/-! ## Growing -/

/-- A catalogue that holds the games of one stretch of a scan and resumes behind it tracks the
text. -/
theorem Tracks.of_scans {games : List (Entry × Nat)}
    (h : Text.Scans u strict (scanStart u 0) games pos)
    (hentries : c.entries.toList = Text.numbered games)
    (hresume : u.gamesFrom strict (scanStart u c.resume) = u.gamesFrom strict pos)
    (hopen : c.complete = false) : c.Tracks u strict := by
  have hscanned : u.scannedGames strict = games ++ u.gamesFrom strict pos := h.gamesFrom_eq
  have hsize : c.entries.size = games.length := by
    rw [← Array.length_toList, hentries, Text.length_numbered]
  refine ⟨?_, ?_, ?_⟩
  · rw [Text.games_eq_numbered, Text.take_numbered, hscanned, hsize, List.take_left' rfl, hentries]
  · rw [Ahead, hresume, hscanned, hsize, List.drop_left' rfl]
  · intro hcomplete
    rw [hopen] at hcomplete
    cases hcomplete

/-- The games in front of one that is to be scanned again are those of the longer text. -/
theorem Tracks.of_forgotten (hagree : t.AgreeBelow u t.size)
    (hget : (t.scannedGames strict)[n]? = some (entry, next))
    (hvalid : ∀ game ∈ (t.scannedGames strict).take n, game.1.verdict = .valid)
    (hentries : c.entries.toList = (t.games strict).take n) (hresume : c.resume = entry.tags.start)
    (hopen : c.complete = false) : c.Tracks u strict := by
  obtain ⟨pos, hscans, hitem⟩ := Text.scans_take hget
  obtain ⟨hstart, hfound⟩ := Text.found_of_nextItem (Prod.ext hitem rfl)
  have hbsize := Text.lt_size_of_getElem? hfound.opening
  have hb := hagree.getElem? hfound.opening hbsize
  have hpos := Text.le_gap_stop t pos
  have hgap : u.gap pos = t.gap pos := hagree.gap (by omega)
  have hgrown : Text.Scans u strict (scanStart u 0) ((t.scannedGames strict).take n) pos := by
    rw [Text.scanStart_of_agreeBelow hagree hfound.opening]
    exact hscans.grow hagree hvalid (by omega)
  refine .of_scans hgrown ?_ ?_ hopen
  · rw [hentries, Text.games_eq_numbered, Text.take_numbered]
  · rw [hresume, Text.scanStart_of_openBracket hb, hstart, ← hgap, Text.gamesFrom_gap_stop]

/-- A catalogue of nothing tracks every text. -/
theorem Tracks.of_nothing (hentries : c.entries = #[]) (hresume : c.resume = 0)
    (hopen : c.complete = false) : c.Tracks u strict :=
  .of_scans (.here _) (by rw [hentries]; rfl) (by rw [hresume]) hopen

/-- A complete catalogue of a text without problems, once it has forgotten its last game, tracks
every text that text may grow into. -/
theorem Reached.reopen_tracks (h : Reached t strict c) (hquiet : t.scanProblems strict = [])
    (hcomplete : c.complete = true) (hagree : t.AgreeBelow u t.size) :
    c.reopen.Tracks u strict := by
  have hresumes := h.resumes
  have hentries := h.tracks.entries_eq
  rw [Catalogue.reopen, if_pos hcomplete]
  cases hlast : c.entries.back? with
  | none =>
    have hnone : c.entries = #[] := Array.back?_eq_none_iff.1 hlast
    simp only [ResumesBehind, hnone, List.size_toArray, List.length_nil] at hresumes
    exact .of_nothing hnone hresumes rfl
  | some last =>
    rw [Array.back?_eq_getElem?, ← Array.getElem?_toList] at hlast
    obtain ⟨hlt, -⟩ := List.getElem?_eq_some_iff.1 hlast
    rw [Array.length_toList] at hlt
    rw [hentries, List.getElem?_take_of_lt hlt] at hlast
    obtain ⟨entry, next, hscanned, rfl⟩ := Text.getElem?_games_iff.1 hlast
    refine .of_forgotten hagree hscanned ?_ ?_ rfl rfl
    · intro game hgame
      exact Text.verdict_of_quiet hquiet (List.mem_of_mem_take hgame)
    · rw [Array.toList_pop, List.dropLast_eq_take, Array.length_toList, hentries, List.take_take,
        Nat.min_eq_left (Nat.sub_le ..)]

/-- An open catalogue tracks every text its text may grow into, if there is nothing wrong with the
headers in it and another game followed its last one. -/
theorem Reached.tracks_of_open (h : Reached t strict c) (hopen : c.complete = false)
    (hvalid : ∀ e ∈ c.entries.toList, e.verdict = .valid)
    (hresume : c.entries.toList = [] ∨ c.resume < t.size) (hagree : t.AgreeBelow u t.size) :
    c.Tracks u strict := by
  have hresumes := h.resumes
  have hentries := h.tracks.entries_eq
  rw [Text.games_eq_numbered, Text.take_numbered] at hentries
  rw [ResumesBehind] at hresumes
  cases hsize : c.entries.size with
  | zero =>
    rw [hsize] at hresumes
    exact .of_nothing (Array.eq_empty_of_size_eq_zero hsize) hresumes hopen
  | succ n =>
    rw [hsize] at hresumes hentries
    obtain ⟨entry, hget⟩ := hresumes
    obtain ⟨hfound, -⟩ := Text.found_of_getElem?_gamesFrom hget
    have hnext := Nat.lt_of_lt_of_le hfound.lies.start_lt (Nat.le_trans hfound.lies.tags_le
      (Nat.le_trans hfound.lies.movetext_le hfound.lies.stop_le))
    have hlt : c.resume < t.size := by
      refine hresume.resolve_left fun hnone => ?_
      rw [← Array.length_toList, hnone] at hsize
      cases hsize
    have hgrown : Text.Scans u strict (scanStart u 0) ((t.scannedGames strict).take (n + 1))
        c.resume := by
      rw [Text.scanStart_of_agreeBelow hagree hfound.opening]
      exact (Text.scans_take_succ hget).grow hagree
        (Text.verdict_of_numbered (hentries ▸ hvalid)) hlt
    exact .of_scans hgrown hentries (by rw [scanStart_of_pos (by omega)]) hopen

/-- Going on after a database has grown comes to the same as starting over. Whatever was asked for
while the catalogue was made and whoever listened, once it is complete on a text without problems
it can be opened again for any longer text: a request for all games to which nobody listens is
answered and leaves what the request would find that nothing precedes. Where the old text broke off
makes no difference. -/
theorem reopen_after_growth (a x : ByteArray) (strict : Bool) (key : Nat) (r : Reporter)
    (h : Reached (.ofBytes a) strict c) (hquiet : (Text.ofBytes a).scanProblems strict = [])
    (hcomplete : c.complete = true) (hr : r.handler = none) :
    ∃ c', c.reopen.ensure strict ⟨key, .ofBytes (a ++ x)⟩ allGames r =
        (.ok c'.entries.size, c', r) ∧
      c'.entries.toList = (Text.ofBytes (a ++ x)).index strict := by
  have htracks : c.reopen.Tracks (Buffer.text ⟨key, .ofBytes (a ++ x)⟩) strict :=
    h.reopen_tracks hquiet hcomplete (Text.agreeBelow_append a x)
  have hsize := Nat.le_trans (size_reopen_le c) h.size_le
  obtain ⟨c', hanswer⟩ :=
    ensure_of_handler_none c.reopen strict ⟨key, .ofBytes (a ++ x)⟩ allGames hr
  refine ⟨c', hanswer, ?_⟩
  have hentries := htracks.entries_ensure hr hsize
  rw [hanswer] at hentries
  rw [hentries, Text.index_eq]

/-- `[A "b"]` and the beginning of a line of movetext, `1. e`. -/
def cutOff : ByteArray :=
  ⟨#[0x5b, 0x41, 0x20, 0x22, 0x62, 0x22, 0x5d, 0x0a, 0x31, 0x2e, 0x20, 0x65]⟩

/-- The rest of that line, `4 e5 *`. -/
def missing : ByteArray :=
  ⟨#[0x34, 0x20, 0x65, 0x35, 0x20, 0x2a, 0x0a]⟩

/-- A game that was cut off in the middle of a move is found in full. -/
theorem reopen_after_growth_of_cutOff :
    let c := (Catalogue.empty.ensure true ⟨0, .ofBytes cutOff⟩ allGames .empty).2.1
    c.complete = true ∧ c.entries.toList.map Entry.movetext = [⟨8, 12⟩] ∧
      (c.reopen.ensure true ⟨1, .ofBytes (cutOff ++ missing)⟩ allGames
        .empty).2.1.entries.toList.map Entry.movetext = [⟨8, 18⟩] := by
  intro c
  have hreached : Reached (.ofBytes cutOff) true c := .ensure .empty 0 (Nat.le_refl _) .empty
  have hcomplete : c.complete = true := by decide +kernel
  obtain ⟨c', hanswer, hentries⟩ := reopen_after_growth cutOff missing true 1 .empty hreached
    (by decide +kernel) hcomplete rfl
  refine ⟨hcomplete, by decide +kernel, ?_⟩
  rw [hanswer, hentries]
  decide +kernel

end Scorebook.Catalogue
