import Scorebook.Proofs.Database.Hearing
import Scorebook.Proofs.Database.Telling
import Scorebook.Proofs.Movetext.Agreement

/-!
# What a check repeats

A check of a game in depth reports again what reading the game found. Cataloguing found more: its
scan also looks at the gap behind the movetext, which belongs to no game, and at tag pairs with the
movetext in view. Whoever starts to listen only after a game was read hears of the game what they
would have heard from the beginning, except for a comment or escaped line behind the movetext that
is never ended, and for problems of tag pairs that cannot be found in front of the movetext.
-/

namespace Scorebook

open Database (unread Recalling)

variable {t : Text} {strict : Bool} {e : Entry} {p : Problem} {pos : Nat}

/-! ## Gaps at fault -/

/-- A pass over a gap that is at fault notes it. -/
theorem Reader.mem_run_gapLexemes (r : Reader) {gap : Gap} (h : gap.problem? = some p)
    (strict : Bool) (stop : Nat) :
    p ∈ (r.run strict stop (t.gapLexemes gap).toList).problems := by
  have hlexemes : (t.gapLexemes gap).toList =
      gap.comments.toList.map (fun body => .comment body (t.readTrimmed body)) ++
        [.openEnd p] := by
    simp [Text.gapLexemes, h]
  rw [hlexemes]
  generalize gap.comments.toList = comments
  induction comments generalizing r with
  | nil =>
    rw [List.map_nil, List.nil_append, run_of_step rfl, run_nil]
    simp only [finishOpen, note, finish]
    split <;> simp
  | cons body rest ih =>
    rw [List.map_cons, List.cons_append, run_of_step rfl]
    exact ih _

namespace Text

/-- A game whose header is followed by nothing but a gap reaches to the end of the text. -/
theorem movetext_stop_of_gap_to_end (h : e ∈ t.games strict)
    (hgap : (t.gap e.movetext.start).stop = t.size) : e.movetext.stop = t.size := by
  rcases movetext_stop_cases h with ⟨-, hstop⟩ | ⟨hend, -⟩
  · exact hstop
  · exact absurd (.inl (Nat.le_of_eq hgap.symm)) hend

/-- What the gap behind a header is at fault for is a problem of the movetext too. -/
theorem mem_score_of_gap (h : e ∈ t.games strict)
    (hproblem : (t.gap e.tags.stop).problem? = some p) :
    p ∈ (t.score strict e.movetext).problems := by
  obtain ⟨next, hlies⟩ := lies_of_mem_games h
  rw [gap_of_blanks hlies.tags_le hlies.blank] at hproblem
  have hstart := hlies.movetext_le
  have hstop := hlies.stop_le
  have hsize := hlies.next_le
  have hend : (t.gap e.movetext.start).stop = t.size := by
    rcases Nat.lt_or_ge (t.gap e.movetext.start).stop t.size with hlt | hge
    · rw [gap_problem?_of_stop_lt hlt] at hproblem
      cases hproblem
    · exact Nat.le_antisymm (gap_stop_le (by omega)) hge
  have hlexemes := lexemesAt_of_gap_to_end hend
  rw [score, lexemes, ← lexemesAt, movetext_stop_of_gap_to_end h hend, hlexemes]
  exact Reader.mem_run_gapLexemes _ hproblem ..

/-- What cataloguing finds wrong with a game is wrong with its header or with the gap behind its
movetext. -/
theorem mem_scanGame_problems (h : e ∈ t.games strict)
    (hp : p ∈ (t.scanGame strict e.tags.start).2.2) :
    p ∈ (t.header strict e.tags.start).problems ∨ (t.gap e.movetext.stop).problem? = some p := by
  obtain ⟨hb, hscan⟩ := scanGame_of_mem_games h
  have hmovetext : (t.scanGame strict e.tags.start).1.movetext.stop = e.movetext.stop :=
    congrArg (·.movetext.stop) hscan
  rw [scanGame_problems strict hb, hmovetext] at hp
  exact (List.mem_append.1 hp).imp_right Option.mem_toList.1

/-- Of the first game a scan runs into nothing but its own problems. -/
theorem problemsTo_one (strict : Bool) (hb : t[pos]? = some Byte.openBracket) :
    t.problemsTo strict 1 pos = (t.scanGame strict pos).2.2 := by
  rw [problemsTo_of_game Nat.one_ne_zero (nextItem_of_openBracket strict hb), problemsTo_zero,
    List.append_nil]

/-- A text that opens with a bracket opens with a game. -/
theorem getElem?_games_zero (strict : Bool) (hb : t[0]? = some Byte.openBracket) :
    (t.games strict)[0]? = some { (t.scanGame strict 0).1 with ordinal := 1 } := by
  have hscanned : (t.scannedGames strict)[0]? =
      some ((t.scanGame strict 0).1, (t.scanGame strict 0).2.1) := by
    rw [scannedGames, scanStart_of_openBracket hb, gamesFrom_of_openBracket hb]
    rfl
  exact getElem?_games_iff.2 ⟨_, _, hscanned, rfl⟩

end Text

/-! ## Verdicts -/

/-- Two verdicts together are valid if both are. -/
theorem Verdict.orElse_eq_valid_iff {v w : Verdict} :
    v.orElse w = .valid ↔ v = .valid ∧ w = .valid := by
  cases v <;> simp [orElse]

/-- If a check in depth finds a game good, there is nothing but advice about it, now and when its
header was catalogued. -/
theorem Game.isAdvisory_of_valid {key n : Nat} (h : e ∈ t.games strict) (r : Reporter)
    (hvalid : ((Game.read ⟨key, t⟩ strict n e).check .deep r).1 = .valid) :
    (∀ p ∈ (Game.read ⟨key, t⟩ strict n e).problems, p.isAdvisory = true) ∧
      ∀ p ∈ (t.header strict e.tags.start).problems, p.isAdvisory = true := by
  obtain ⟨-, hscan⟩ := Text.scanGame_of_mem_games h
  have hverdict : Verdict.ofProblems (t.header strict e.tags.start).problems = e.verdict :=
    congrArg Entry.verdict hscan
  obtain ⟨hheader, hscore⟩ := Verdict.orElse_eq_valid_iff.1 hvalid
  obtain ⟨hentry, hheader⟩ := Verdict.orElse_eq_valid_iff.1 hheader
  refine ⟨?_, Verdict.ofProblems_eq_valid_iff.1 (hverdict.trans hentry)⟩
  exact List.forall_mem_append.2
    ⟨Verdict.ofProblems_eq_valid_iff.1 hheader, Verdict.ofProblems_eq_valid_iff.1 hscore⟩

/-! ## Listening late -/

namespace Reporter

variable {r : Reporter}

/-- A report to which nobody listens leaves no trace. -/
theorem report_snd_of_handler_none (h : r.handler = none) (buffer : Buffer) (p : Problem) :
    (r.report buffer p).2 = r := by
  simp only [report, h]

/-- A reporter that nobody listens to stays as it is. -/
theorem reportAll_snd_of_handler_none (h : r.handler = none) (buffer : Buffer)
    (problems : List Problem) : (r.reportAll buffer problems).2 = r := by
  induction problems with
  | nil => rfl
  | cons p rest ih =>
    have hfirst := report_snd_of_handler_none h buffer p
    rw [reportAll]
    generalize r.report buffer p = result at hfirst ⊢
    obtain ⟨answer, r'⟩ := result
    cases hfirst
    cases answer with
    | some failure => rfl
    | none => exact ih

end Reporter

namespace Database

variable {name : String} {bytes : ByteArray} {disk : Disk} {db : Database}

/-- Reading a game while nobody listens leaves the reporter alone. -/
theorem readGame_reporter_of_handler_none (h : db.reporter.handler = none) (disk : Disk) (n : Nat) :
    (db.readGame disk n).2.reporter = db.reporter := by
  -- Each of the four steps of a read could report, and without a handler none does.
  refine readGame_keeps (P := (·.reporter = db.reporter)) rfl ?_ ?_ ?_ ?_
  · unfold refresh
    split <;> rfl
  · intro db' heq
    obtain ⟨c, hindex⟩ := indexTo_of_handler_none db' (heq ▸ h) n
    rw [hindex]
    exact heq
  · intro db' entry problem heq _ _
    have hnone : db'.reporter.handler = none := heq ▸ h
    exact (Reporter.report_snd_of_handler_none hnone db'.buffer problem).trans heq
  · intro db' entry heq _ _
    have hnone : db'.reporter.handler = none := heq ▸ h
    unfold readAt
    split
    · exact heq
    · simp only
      split <;> next hreport =>
        have hkept := congrArg Prod.snd hreport
        rw [Reporter.reportAll_snd_of_handler_none hnone] at hkept
        exact hkept.symm.trans heq

/-- A report of this mark was passed on. -/
def HeardOf (db : Database) (mark : Mark) : Prop :=
  ∃ report ∈ db.reporter.delivered.toList, report.mark = mark

/-- A database that was opened with nobody listening, and nothing read from it. -/
structure Unheard (name : String) (bytes : ByteArray) (strict : Bool) (db : Database) : Prop where
  unhindered : db.Unhindered name bytes strict
  reporter : db.reporter = .empty
  current : db.current = none
  /-- What is left to catalogue up to the first game is a problem of that game. -/
  ahead : (Text.ofBytes bytes)[0]? = some Byte.openBracket →
    db.catalogue.problemsAhead (.ofBytes bytes) strict 1 ⊆
      ((Text.ofBytes bytes).scanGame strict 0).2.2

/-- A database opened in memory has no listener. -/
theorem ofBytes_unheard (name : String) (bytes : ByteArray) (strict : Bool) (prefetch : UInt32) :
    ∃ db, ofBytes name bytes ⟨strict, prefetch.toNat⟩ = .ok db ∧ db.Unheard name bytes strict := by
  have hunread := Unhindered.unread name bytes ⟨strict, prefetch.toNat⟩
  rw [ofBytes, openStore_eq]
  split
  · -- Without prefetching nothing is scanned yet, so all is ahead that the scan will tell.
    refine ⟨_, rfl, hunread, rfl, rfl, fun hb => ?_⟩
    have hahead : Catalogue.empty.problemsAhead (.ofBytes bytes) strict 1 =
        ((Text.ofBytes bytes).scanGame strict 0).2.2 := by
      rw [← Text.problemsTo_one strict hb, ← Text.scanStart_of_openBracket hb]
      rfl
    exact hahead ▸ List.Subset.refl _
  · next hprefetch =>
    obtain ⟨c, hindex⟩ := indexTo_of_handler_none
      (Database.unread (.ofBytes name bytes) ⟨strict, prefetch.toNat⟩) rfl prefetch.toNat
    have hdone := @Catalogue.done_of_ensure strict ⟨0, .ofBytes bytes⟩ prefetch.toNat .empty .empty
      .empty
    refine ⟨_, rfl, (hunread.indexTo (toNat_le_allGames prefetch)).2, by rw [hindex]; rfl, rfl,
      fun _ => ?_⟩
    -- Prefetching has scanned the first game, so nothing of it is ahead.
    have hreached := hdone.imp id (Nat.le_trans (Nat.pos_of_ne_zero hprefetch))
    have hnone : ((Database.unread (.ofBytes name bytes) ⟨strict, prefetch.toNat⟩).indexTo
        prefetch.toNat).2.catalogue.problemsAhead (.ofBytes bytes) strict 1 = [] :=
      Catalogue.problemsAhead_of_done hreached _
    exact hnone ▸ List.nil_subset _

/-- A game that can be read is read while nobody listens. -/
theorem Unheard.readGame_of_fresh (h : db.Unheard name bytes strict) (disk : Disk) {g : Game}
    (hfresh : Buffer.fresh ⟨0, .ofBytes bytes⟩ strict 1 = .ok (some g)) :
    ∃ reading after, db.readGame disk 1 = (.ok (some reading), after) ∧ reading.game = g := by
  have houtcome := (h.unhindered.readGame disk (by decide : 1 ≤ Catalogue.allGames)).1
  rw [outcome, hfresh] at houtcome
  rcases hresult : db.readGame disk 1 with ⟨_ | _ | reading, after⟩
  · rw [hresult] at houtcome
    cases houtcome
  · rw [hresult] at houtcome
    cases houtcome
  · rw [hresult] at houtcome
    cases houtcome
    exact ⟨reading, after, rfl, rfl⟩

/-- What whoever listens from the beginning hears of the first game. -/
theorem Unheard.readGame_listening (h : db.Unheard name bytes strict) {handler : Handler}
    (hhandler : handler.Obliging) (disk : Disk) {g : Game}
    (hfresh : Buffer.fresh ⟨0, .ofBytes bytes⟩ strict 1 = .ok (some g)) :
    ∃ reading first, (db.setHandler (some handler)).readGame disk 1 = (.ok (some reading), first) ∧
      reading.game = g ∧
      first.reporter.Recalls (.ofBytes bytes)
        (db.catalogue.problemsAhead (.ofBytes bytes) strict 1 ++ g.problems) := by
  change (Store.ofBytes name bytes).current.buffer.fresh strict 1 = .ok (some g) at hfresh
  have hlistening := Recalling.listen hhandler h.unhindered.catalogued h.reporter h.current
  have hstill : (Store.ofBytes name bytes).refresh disk = .ok (.ofBytes name bytes) := rfl
  have hserves := hlistening.readGame hstill (by decide : 1 ≤ Catalogue.allGames)
  generalize (db.setHandler (some handler)).readGame disk 1 = result at hserves ⊢
  -- The same read succeeded while nobody listened, so it is not stopped now.
  cases hserves with
  | @given reading first hgiven hafter =>
    rw [hfresh] at hgiven
    cases hgiven
    exact ⟨reading, first, rfl, rfl, hafter.recalls⟩
  | absent hnone =>
    rw [hfresh] at hnone
    cases hnone
  | stopped hstopped =>
    rw [hfresh] at hstopped
    cases hstopped

/-- What whoever listens only once a game was read hears of it. -/
theorem Unheard.check_late (h : db.Unheard name bytes strict) (handler : Handler) (disk : Disk)
    (n : Nat) {g : Game} (hg : g.buffer.text = .ofBytes bytes) :
    ((((db.readGame disk n).2.setHandler (some handler)).check g .deep).2.reporter).Recalls
      (.ofBytes bytes) g.problems := by
  have hquiet : (db.readGame disk n).2.reporter = .empty := by
    rw [readGame_reporter_of_handler_none (by rw [h.reporter]; rfl), h.reporter]
  have hnil : ((db.readGame disk n).2.setHandler (some handler)).reporter.Recalls
      (.ofBytes bytes) [] := by
    rw [setHandler, hquiet]
    exact Reporter.recalls_nil rfl (fun _ => Std.HashSet.not_mem_empty) ⟨rfl, .empty _⟩
  exact hnil.mention hg g.problems

/-! ## The statement -/

/-- What was found wrong with a game when it was catalogued leaves the mark of a problem that
reading the game finds, if the tag pairs show their problems in front of the movetext and the gap
behind the movetext is not at fault. -/
theorem mark_of_scanGame {t : Text} {key n : Nat} {p : Problem} (h : e ∈ t.games strict)
    (hshow : e.ShowsProblems t strict) (hgap : (t.gap e.movetext.stop).problem? = none)
    (hp : p ∈ (t.scanGame strict e.tags.start).2.2) :
    ∃ q ∈ (Game.read ⟨key, t⟩ strict n e).problems, q.mark t = p.mark t := by
  rcases Text.mem_scanGame_problems h hp with hheader | hlast
  · rw [(Text.header_problems_eq h).1] at hheader
    rcases List.mem_append.1 hheader with hpair | hbehind
    · have hgame : e ∈ (Buffer.mk key t).text.games strict := h
      have hfound := List.mem_map_of_mem (f := Problem.identity) hpair
      rw [← Game.headerProblems_read hgame hshow n] at hfound
      obtain ⟨q, hq, hsame⟩ := List.mem_map.1 hfound
      exact ⟨q, List.mem_append_left _ hq, Problem.mark_congr hsame t⟩
    · have hscore := Text.mem_score_of_gap h (Option.mem_toList.1 hbehind)
      exact ⟨p, List.mem_append_right _ hscore, rfl⟩
  · rw [hgap] at hlast
    cases hlast

theorem eq_ok_of_toOption_join {x : Except Failure (Option Game)} {g : Game}
    (h : x.toOption.join = some g) : x = .ok (some g) := by
  rcases x with _ | _ | g'
  · cases h
  · cases h
  · cases h
    rfl

/-- Checking a game in depth repeats what reading it found. Compare one who listens from the
beginning and reads the first game with one who reads it first and then listens to a check in depth:
both get the same game, and the second hears of nothing that the first does not hear of. If the tag
pairs show their problems in front of the movetext and the gap behind the movetext is not at fault,
both hear of the same. And where the check finds the game good, the first heard nothing but advice,
except of what the gap behind the movetext is at fault for. -/
theorem check_repeats_reading (name : String) (bytes : ByteArray) (strict : Bool)
    (prefetch : UInt32) (disk : Disk) {handler : Handler} (hhandler : handler.Obliging)
    (hstart : (Text.ofBytes bytes)[0]? = some Byte.openBracket) :
    ∃ e, ((Text.ofBytes bytes).games strict)[0]? = some e ∧
      ∃ db, ofBytes name bytes ⟨strict, prefetch.toNat⟩ = .ok db ∧
        ∀ reading after, db.readGame disk 1 = (.ok (some reading), after) →
          let checked := (after.setHandler (some handler)).check reading.game .deep
          ∃ reading' first,
            (db.setHandler (some handler)).readGame disk 1 = (.ok (some reading'), first) ∧
            reading'.game = reading.game ∧
            (∀ mark, checked.2.HeardOf mark → first.HeardOf mark) ∧
            (e.ShowsProblems (.ofBytes bytes) strict →
              ((Text.ofBytes bytes).gap e.movetext.stop).problem? = none →
                ∀ mark, first.HeardOf mark ↔ checked.2.HeardOf mark) ∧
            (checked.1 = .valid → ∀ report ∈ first.reporter.delivered.toList,
              report.problem.isAdvisory = true ∨
                ((Text.ofBytes bytes).gap e.movetext.stop).problem? = some report.problem) := by
  -- The game begins the text, so its header is what is scanned first.
  have hfirst := Text.getElem?_games_zero strict hstart
  have htags : ((Text.ofBytes bytes).scanGame strict 0).1.tags.start = 0 :=
    (Text.scanGame_lies strict hstart).tags_start
  generalize hentry : { ((Text.ofBytes bytes).scanGame strict 0).1 with ordinal := 1 } = e at hfirst
  have hmem := List.mem_of_getElem? hfirst
  have htags : e.tags.start = 0 := hentry ▸ htags
  obtain ⟨db, hopen, hdb⟩ := ofBytes_unheard name bytes strict prefetch
  refine ⟨e, hfirst, db, hopen, fun reading after hread => ?_⟩
  -- What was read while nobody listened is the game, and nothing was heard of it.
  have houtcome := (hdb.unhindered.readGame disk (by decide : 1 ≤ Catalogue.allGames)).1
  rw [outcome, hread] at houtcome
  have hfresh : Buffer.fresh ⟨0, .ofBytes bytes⟩ strict 1 = .ok (some reading.game) :=
    houtcome.symm
  have hgame : reading.game = Game.read ⟨0, .ofBytes bytes⟩ strict 1 e := by
    obtain ⟨_, entry, ⟨⟩, hget, hgame⟩ := Buffer.game_of_fresh hfresh
    obtain rfl : entry = e := Option.some.inj (hget.symm.trans hfirst)
    exact hgame
  -- Read while somebody listens, the scan is told before the game.
  obtain ⟨reading', first, hheard, hsame, hrecalls⟩ :=
    hdb.readGame_listening hhandler disk hfresh
  -- Checked later, the game is told alone.
  have hlate := hdb.check_late handler disk 1 (congrArg Buffer.text (buffer_of_fresh hfresh))
  rw [hread] at hlate
  have hahead := hdb.ahead hstart
  rw [← htags] at hahead
  refine ⟨reading', first, hheard, hsame, fun mark => ?_, fun hshow hgap mark => ?_,
    fun hvalid report hreport => ?_⟩
  · rw [HeardOf, HeardOf, hlate.marks, hrecalls.marks]
    rintro ⟨p, hp, hmark⟩
    exact ⟨p, List.mem_append_right _ hp, hmark⟩
  · -- The two differ by the problems of the scan, which the game repeats if it shows them.
    rw [HeardOf, HeardOf, hlate.marks, hrecalls.marks]
    constructor
    · rintro ⟨p, hp, rfl⟩
      rcases List.mem_append.1 hp with hscan | hp
      · rw [hgame]
        exact mark_of_scanGame hmem hshow hgap (hahead hscan)
      · exact ⟨p, hp, rfl⟩
    · rintro ⟨p, hp, hmark⟩
      exact ⟨p, List.mem_append_right _ hp, hmark⟩
  · -- A valid answer leaves advice among the problems, and the gap behind the game.
    obtain ⟨p, hp, rfl⟩ := hrecalls.reports report hreport
    rw [hgame] at hvalid hp
    obtain ⟨hread, hheader⟩ :=
      Game.isAdvisory_of_valid hmem (after.setHandler (some handler)).reporter hvalid
    rcases List.mem_append.1 hp with hscan | hp
    · exact (Text.mem_scanGame_problems hmem (hahead hscan)).imp_left (hheader p)
    · exact .inl (hread p hp)

/-- A game whose second pair, `[C "d"`, has no closing bracket and whose move, `Kx9`, is in no
notation. -/
def faulty : ByteArray :=
  ⟨#[0x5b, 0x41, 0x20, 0x22, 0x62, 0x22, 0x5d, 0x0a, 0x5b, 0x43, 0x20, 0x22, 0x64, 0x22, 0x0a, 0x4b,
    0x78, 0x39, 0x20, 0x2a]⟩

/-- Both faults are heard of from the beginning, and again by whoever listens to the check. -/
theorem check_repeats_reading_of_faulty :
    Handler.Obliging ⟨fun _ _ => true⟩ ∧ (Text.ofBytes faulty)[0]? = some Byte.openBracket ∧
      ∃ db reading after first,
        ofBytes "db.pgn" faulty ⟨false, 0⟩ = .ok db ∧
        db.readGame (.error "") 1 = (.ok (some reading), after) ∧
        ((db.setHandler (some ⟨fun _ _ => true⟩)).readGame (.error "") 1).2 = first ∧
        ∀ mark, first.HeardOf mark ↔ ((after.setHandler (some ⟨fun _ _ => true⟩)).check
          reading.game .deep).2.HeardOf mark := by
  have hhandler : Handler.Obliging ⟨fun _ _ => true⟩ := fun _ _ => rfl
  have hstart : (Text.ofBytes faulty)[0]? = some Byte.openBracket := by decide
  have hshown : ((Text.ofBytes faulty).games false)[0]?.all (fun e =>
      decide (e.ShowsProblems (.ofBytes faulty) false) &&
        ((Text.ofBytes faulty).gap e.movetext.stop).problem?.isNone) = true := by
    decide +kernel
  have hgiven : (Buffer.fresh ⟨0, .ofBytes faulty⟩ false 1).toOption.join.isSome = true := by
    decide +kernel
  obtain ⟨g, hg⟩ := Option.isSome_iff_exists.1 hgiven
  obtain ⟨e, hfirst, db, hopen, hcheck⟩ :=
    check_repeats_reading "db.pgn" faulty false 0 (.error "") hhandler hstart
  obtain ⟨db', hopen', hdb⟩ := ofBytes_unheard "db.pgn" faulty false 0
  obtain rfl : db = db' := Except.ok.inj (hopen.symm.trans hopen')
  obtain ⟨reading, after, hread, -⟩ :=
    hdb.readGame_of_fresh (.error "") (eq_ok_of_toOption_join hg)
  obtain ⟨reading', first, hheard, -, -, hsame, -⟩ := hcheck reading after hread
  rw [hfirst, Option.all_some, Bool.and_eq_true, decide_eq_true_iff, Option.isNone_iff_eq_none]
    at hshown
  exact ⟨hhandler, hstart, db, reading, after, first, hopen, hread, congrArg Prod.snd hheard,
    hsame hshown.1 hshown.2⟩

/-- A game with a comment behind its marker that is never closed. -/
def unended : ByteArray :=
  ⟨#[0x5b, 0x41, 0x20, 0x22, 0x62, 0x22, 0x5d, 0x0a, 0x31, 0x2e, 0x20, 0x65, 0x34, 0x20, 0x2a, 0x20,
    0x7b, 0x6f, 0x70, 0x65, 0x6e]⟩

/-- The comment is heard of from the beginning, but the check finds the game good and says
nothing. -/
theorem check_misses_gap_of_unended :
    ((Text.ofBytes unended).games false).length = 1 ∧
      ∃ db reading after first,
        ofBytes "db.pgn" unended ⟨false, 0⟩ = .ok db ∧
        db.readGame (.error "") 1 = (.ok (some reading), after) ∧
        ((db.setHandler (some ⟨fun _ _ => true⟩)).readGame (.error "") 1).2 = first ∧
        first.HeardOf ⟨.illegalToken, ⟨2, 9⟩⟩ ∧
        let checked := (after.setHandler (some ⟨fun _ _ => true⟩)).check reading.game .deep
        checked.1 = .valid ∧ ∀ mark, ¬ checked.2.HeardOf mark := by
  -- The scan tells of an open comment behind the marker, the game has no problem.
  have hgood : (Buffer.fresh ⟨0, .ofBytes unended⟩ false 1).toOption.join.map (fun g =>
      (g.problems, (g.check .deep .empty).1)) = some ([], .valid) := by
    decide +kernel
  have hmark : ∃ p ∈ Catalogue.empty.problemsAhead (.ofBytes unended) false 1,
      p.mark (.ofBytes unended) = ⟨.illegalToken, ⟨2, 9⟩⟩ := by
    decide +kernel
  obtain ⟨g, hg, hclean⟩ := Option.map_eq_some_iff.1 hgood
  obtain ⟨hproblems, hvalid⟩ := Prod.mk.inj hclean
  have hfresh := eq_ok_of_toOption_join hg
  obtain ⟨db, hopen, hdb⟩ := ofBytes_unheard "db.pgn" unended false 0
  obtain ⟨reading, after, hread, rfl⟩ := hdb.readGame_of_fresh (.error "") hfresh
  have hhandler : Handler.Obliging ⟨fun _ _ => true⟩ := fun _ _ => rfl
  obtain ⟨reading', first, hheard, -, hrecalls⟩ :=
    hdb.readGame_listening hhandler (.error "") hfresh
  have hlate := hdb.check_late ⟨fun _ _ => true⟩ (.error "") 1
    (congrArg Buffer.text (buffer_of_fresh hfresh))
  rw [hread, hproblems] at hlate
  refine ⟨by decide +kernel, db, reading, after, first, hopen, hread, congrArg Prod.snd hheard, ?_,
    hvalid, ?_⟩
  · obtain ⟨p, hp, hp'⟩ := hmark
    cases hopen
    exact (hrecalls.marks _).2 ⟨p, List.mem_append_left _ hp, hp'⟩
  · intro mark hmark
    obtain ⟨p, hp, -⟩ := (hlate.marks mark).1 hmark
    cases hp

end Database

end Scorebook
