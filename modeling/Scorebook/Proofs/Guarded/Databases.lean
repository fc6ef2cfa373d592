import Scorebook.Proofs.Database.Position
import Scorebook.Proofs.Guarded.Games

/-!
# Databases with every step guarded

A database reports problems of the content it looks at, and the file may be another one by the time
a game is read that was catalogued before. The guarded operations fail where a problem does not
point into the text it is reported of, and where any step of cataloguing or reading fails.

Cataloguing starts where it stopped once, be that behind the end of what the file holds now, and
never fails. A game is read only if its place ends inside the text, so reading it cannot fail
either. So whatever becomes of the file, all ranges that are cut out and all ranges that are
reported lie in the text.
-/

namespace Scorebook

/-! ## Reports -/

namespace Reporter

/-- As `report`, of a problem that points into the text. -/
def guardedReport (r : Reporter) (buffer : Buffer) (problem : Problem) :
    Option (Option Failure × Reporter) :=
  if problem.PointsInto buffer.text then some (r.report buffer problem) else none

/-- As `reportAll`. -/
def guardedReportAll (r : Reporter) (buffer : Buffer) :
    List Problem → Option (Option Failure × Reporter)
  | [] => some (none, r)
  | problem :: rest => do
    match ← r.guardedReport buffer problem with
    | (some failure, r) => some (some failure, r)
    | (none, r) => r.guardedReportAll buffer rest

/-- As `mention`. -/
def guardedMention (r : Reporter) (buffer : Buffer) (problems : List Problem) : Option Reporter :=
  problems.foldlM (fun r problem => do
    let (_, r) ← r.guardedReport buffer problem
    some r) r

variable {buffer : Buffer} {problem : Problem} {problems : List Problem}

/-- A problem that points into the text is reported without a check failing. -/
theorem guardedReport_eq (r : Reporter) (h : problem.PointsInto buffer.text) :
    r.guardedReport buffer problem = some (r.report buffer problem) :=
  if_pos h

/-- So are any number of them. -/
theorem guardedReportAll_eq (r : Reporter) (h : ∀ p ∈ problems, p.PointsInto buffer.text) :
    r.guardedReportAll buffer problems = some (r.reportAll buffer problems) := by
  induction problems generalizing r with
  | nil => rfl
  | cons problem rest ih =>
    obtain ⟨hfirst, hrest⟩ := List.forall_mem_cons.1 h
    rw [guardedReportAll, guardedReport_eq r hfirst, reportAll, Option.bind_eq_bind,
      Option.bind_some]
    rcases r.report buffer problem with ⟨_ | failure, r'⟩
    · exact ih r' hrest
    · rfl

/-- So are those that are only mentioned. -/
theorem guardedMention_eq (r : Reporter) (h : ∀ p ∈ problems, p.PointsInto buffer.text) :
    r.guardedMention buffer problems = some (r.mention buffer problems) := by
  induction problems generalizing r with
  | nil => rfl
  | cons problem rest ih =>
    obtain ⟨hfirst, hrest⟩ := List.forall_mem_cons.1 h
    rw [guardedMention, List.foldlM_cons, guardedReport_eq r hfirst]
    exact ih _ hrest

end Reporter

/-! ## Cataloguing -/

namespace Catalogue

/-- As `extendFrom`. -/
def guardedExtendFrom (strict : Bool) (buffer : Buffer) (target pos : Nat) (c : Catalogue)
    (r : Reporter) : Option (Option Failure × Catalogue × Reporter) :=
  if c.entries.size < target then do
    let (item, problems) ← buffer.text.guardedNextItem strict pos
    match ← r.guardedReportAll buffer problems with
    | (some failure, r) => some (some failure, c, r)
    | (none, r) =>
      match item with
      | .nothing => some (none, { c with complete := true }, r)
      | .stray next =>
        if pos < next ∧ next ≤ buffer.text.size then
          guardedExtendFrom strict buffer target next c r
        else none
      | .game entry next =>
        if pos < next ∧ next ≤ buffer.text.size then
          guardedExtendFrom strict buffer target next (c.add entry next) r
        else none
  else some (none, c, r)
termination_by buffer.text.size - pos

/-- As `ensure`. -/
def guardedEnsure (c : Catalogue) (strict : Bool) (buffer : Buffer) (target : Nat) (r : Reporter) :
    Option (Except Failure Nat × Catalogue × Reporter) :=
  if c.complete ∨ target ≤ c.entries.size then some (.ok c.entries.size, c, r)
  else do
    match ← guardedExtendFrom strict buffer target (scanStart buffer.text c.resume) c r with
    | (some failure, c, r) => some (.error failure, c, r)
    | (none, c, r) => some (.ok c.entries.size, c, r)

variable {strict : Bool} {buffer : Buffer} {pos next : Nat}

/-- A scan goes on from behind what it came upon, inside the text. -/
theorem advances_of_nextItem {item : Item} {problems : List Problem}
    (hitem : buffer.text.nextItem strict pos = (item, problems)) (hnext : item.next? = some next) :
    pos < next ∧ next ≤ buffer.text.size := by
  obtain rfl : (buffer.text.nextItem strict pos).1 = item := congrArg Prod.fst hitem
  refine ⟨(Text.lt_of_next?_nextItem hnext).2, ?_⟩
  cases hfound : (buffer.text.nextItem strict pos).1 with
  | nothing =>
    rw [hfound] at hnext
    cases hnext
  | stray behind =>
    rw [hfound] at hnext
    cases hnext
    obtain ⟨_, -, -, rfl⟩ := Text.nextItem_eq_stray_iff.1 hfound
    exact Text.resync_le_size ..
  | game entry behind =>
    rw [hfound] at hnext
    cases hnext
    obtain ⟨hb, -, rfl⟩ := Text.nextItem_eq_game_iff.1 hfound
    exact (Text.scanGame_lies strict hb).next_le

/-- Cataloguing stays inside the text, wherever it goes on from. -/
theorem guardedExtendFrom_eq (strict : Bool) (buffer : Buffer) (target pos : Nat) (c : Catalogue)
    (r : Reporter) :
    guardedExtendFrom strict buffer target pos c r =
      some (extendFrom strict buffer target pos c r) := by
  have hreport {pos : Nat} {item : Item} {problems : List Problem} (r : Reporter)
      (hitem : buffer.text.nextItem strict pos = (item, problems)) :
      r.guardedReportAll buffer problems = some (r.reportAll buffer problems) :=
    r.guardedReportAll_eq fun p hp =>
      Text.pointsInto_of_nextItem (show p ∈ (buffer.text.nextItem strict pos).2 from hitem ▸ hp)
  -- The cases in which a report stops the scan close alike, and so do those in which it goes on.
  fun_induction extendFrom strict buffer target pos c r with
  | case1 pos c r hlt problems hitem failure r' hfails
  | case3 pos c r hlt next problems hitem failure r' hfails
  | case5 pos c r hlt entry next problems hitem failure r' hfails =>
    rw [guardedExtendFrom, if_pos hlt, Text.guardedNextItem_eq, hitem]
    simp only [Option.bind_eq_bind, Option.bind_some]
    rw [hreport r hitem, hfails]
    rfl
  | case2 pos c r hlt problems hitem r' haccepted =>
    rw [guardedExtendFrom, if_pos hlt, Text.guardedNextItem_eq, hitem]
    simp only [Option.bind_eq_bind, Option.bind_some]
    rw [hreport r hitem, haccepted]
    rfl
  | case4 pos c r hlt next problems hitem r' haccepted ih
  | case6 pos c r hlt entry next problems hitem r' haccepted ih =>
    rw [guardedExtendFrom, if_pos hlt, Text.guardedNextItem_eq, hitem]
    simp only [Option.bind_eq_bind, Option.bind_some]
    rw [hreport r hitem, haccepted, Option.bind_some]
    simp only
    -- The scan has moved on, so the check of it passes.
    rw [if_pos (advances_of_nextItem hitem rfl)]
    exact ih
  | case7 pos c r hge => rw [guardedExtendFrom, if_neg hge]

/-- A request for games reads nothing out of range. -/
theorem guardedEnsure_eq (c : Catalogue) (strict : Bool) (buffer : Buffer) (target : Nat)
    (r : Reporter) :
    c.guardedEnsure strict buffer target r = some (c.ensure strict buffer target r) := by
  unfold guardedEnsure ensure
  rw [guardedExtendFrom_eq]
  split
  · rfl
  · rcases extendFrom strict buffer target (scanStart buffer.text c.resume) c r with
      ⟨_ | failure, c', r'⟩ <;> rfl

end Catalogue

/-! ## Requests -/

namespace Database

/-- As `indexTo`. -/
def guardedIndexTo (db : Database) (target : Nat) : Option (Except Failure Nat × Database) := do
  let (answer, catalogue, reporter) ←
    db.catalogue.guardedEnsure db.options.strict db.buffer target db.reporter
  some (answer, { db with catalogue, reporter })

/-- As `openStore`. -/
def guardedOpenStore (store : Store) (options : Options) : Option (Except Failure Database) :=
  let db : Database := ⟨options, store, .empty, .empty, 0, none⟩
  if options.prefetch = 0 then some (.ok db)
  else do
    match ← db.guardedIndexTo options.prefetch with
    | (.ok _, db) => some (.ok db)
    | (.error failure, _) => some (.error failure)

/-- As `gameCount`. -/
def guardedGameCount (db : Database) (disk : Disk) : Option (Except Failure Nat × Database) :=
  match db.refresh disk with
  | (.error failure, db) => some (.error failure, db)
  | (.ok (), db) => db.guardedIndexTo Catalogue.allGames

/-- As `reject`. -/
def guardedReject (db : Database) (n : Nat) (problem : Problem) : Option (Failure × Database) := do
  let (failure, reporter) ← db.reporter.guardedReport db.buffer problem
  some (failure.getD (.fatal problem),
    { db with catalogue := db.catalogue.invalidateFrom n, reporter })

/-- As `stale?`. The header is cut out to be compared with its checksum. -/
def guardedStale (t : Text) (n : Nat) (entry : Entry) : Option (Option Problem) :=
  if t.size < entry.tags.stop ∨ t.size < entry.movetext.stop then
    some (some (.gameOutOfRange n ⟨min entry.tags.start t.size, t.size⟩))
  else do
    let _ ← t.slice? entry.tags
    if t.checksum entry.tags ≠ entry.checksum then some (some (.hashMismatch n entry.tags))
    else some none

/-- As `readAt`. -/
def guardedReadAt (db : Database) (n : Nat) (entry : Entry) :
    Option (Except Failure Reading × Database) :=
  match db.reusable? n entry with
  | some game => some (.ok ⟨game, true⟩, db.arriveAt game)
  | none => do
    let game ← Game.guardedRead db.buffer db.options.strict n entry
    match ← db.reporter.guardedReportAll db.buffer game.problems with
    | (some failure, reporter) => some (.error failure, { db with reporter })
    | (none, reporter) => some (.ok ⟨game, false⟩, { db with reporter }.arriveAt game)

/-- As `readGame`. -/
def guardedReadGame (db : Database) (disk : Disk) (n : Nat) :
    Option (Except Failure (Option Reading) × Database) :=
  if n = 0 then some (.ok none, db)
  else
    match db.refresh disk with
    | (.error failure, db) => some (.error failure, db)
    | (.ok (), db) => do
      match ← db.guardedIndexTo n with
      | (.error failure, db) => some (.error failure, db)
      | (.ok count, db) =>
        if count < n then some (.ok none, db)
        else
          match db.catalogue.entry? n with
          | none => some (.ok none, db)
          | some entry =>
            match ← guardedStale db.buffer.text n entry with
            | some problem =>
              let (failure, db) ← db.guardedReject n problem
              some (.error failure, db)
            | none =>
              match ← db.guardedReadAt n entry with
              | (.error failure, db) => some (.error failure, db)
              | (.ok reading, db) => some (.ok (some reading), db)

/-- As `readNext`. -/
def guardedReadNext (db : Database) (disk : Disk) :
    Option (Except Failure (Option Reading) × Database) :=
  db.guardedReadGame disk (min (db.cursor + 1) Catalogue.allGames)

/-- As `check`. -/
def guardedCheck (db : Database) (g : Game) (depth : Depth) : Option (Verdict × Database) :=
  match depth with
  | .simple => some (g.headerVerdict, db)
  | .deep => do
    let reporter ← db.reporter.guardedMention g.buffer g.problems
    some (g.headerVerdict.orElse g.score.verdict, { db with reporter })

/-- As `undergo`. -/
def guardedUndergo (db : Database) : Event → Option Database
  | .index target => (db.guardedIndexTo target.toNat).map Prod.snd
  | .count disk => (db.guardedGameCount disk).map Prod.snd
  | .read n disk => (db.guardedReadGame disk n.toNat).map Prod.snd
  | .next disk => (db.guardedReadNext disk).map Prod.snd
  | .check g depth => (db.guardedCheck g depth).map Prod.snd
  | .listen handler => some (db.setHandler handler)

/-- As `undergoAll`. -/
def guardedUndergoAll (db : Database) (events : List Event) : Option Database :=
  events.foldlM guardedUndergo db

/-! ## No request fails a guard -/

variable {db : Database} {n : Nat} {entry : Entry} {disk : Disk} {g : Game} {depth : Depth}

/-- So it does not from a database. -/
theorem guardedIndexTo_eq (db : Database) (target : Nat) :
    db.guardedIndexTo target = some (db.indexTo target) := by
  rw [guardedIndexTo, Catalogue.guardedEnsure_eq]
  rfl

/-- Opening a database reads nothing out of range. -/
theorem guardedOpenStore_eq (store : Store) (options : Options) :
    guardedOpenStore store options = some (openStore store options) := by
  unfold guardedOpenStore openStore
  simp only [guardedIndexTo_eq, Option.bind_eq_bind, Option.bind_some]
  split
  · rfl
  · rcases indexTo _ options.prefetch with ⟨_ | count, db⟩ <;> rfl

/-- Counting games reads nothing out of range, whatever became of the file. -/
theorem guardedGameCount_eq (db : Database) (disk : Disk) :
    db.guardedGameCount disk = some (db.gameCount disk) := by
  unfold guardedGameCount gameCount
  simp only [guardedIndexTo_eq]
  rcases db.refresh disk with ⟨_ | _, seen⟩ <;> rfl

/-- The place of a game that is not out of date lies in the text. -/
theorem liesIn_of_good {t : Text} (hplaced : entry.WellPlaced)
    (hgood : stale? t n entry = none) : entry.LiesIn t := by
  obtain ⟨htags, -, hmovetext⟩ := hplaced
  unfold stale? at hgood
  split at hgood
  · cases hgood
  · next hinside => exact ⟨⟨Nat.le_of_lt htags, by omega⟩, hmovetext, by omega⟩

/-- What says that a game is out of date points into the text. -/
theorem pointsInto_of_stale {t : Text} {problem : Problem} (hplaced : entry.WellPlaced)
    (hstale : stale? t n entry = some problem) : problem.PointsInto t := by
  unfold stale? at hstale
  split at hstale
  · cases hstale
    exact List.forall_mem_singleton.2 ⟨Nat.min_le_right .., Nat.le_refl _⟩
  · next hinside =>
    split at hstale
    · cases hstale
      exact List.forall_mem_singleton.2 ⟨Nat.le_of_lt hplaced.1, by omega⟩
    · cases hstale

/-- Whether an entry is stale is found out without reading behind the text. -/
theorem guardedStale_eq {t : Text} (hplaced : entry.WellPlaced) :
    guardedStale t n entry = some (stale? t n entry) := by
  unfold guardedStale stale?
  split
  · rfl
  · next hinside =>
    have hslice : t.slice? entry.tags = some (t.slice entry.tags) :=
      Text.slice?_of_covers ⟨Nat.le_of_lt hplaced.1, by omega⟩
    rw [hslice, Option.bind_eq_bind, Option.bind_some]
    split <;> rfl

/-- Giving up on a game reports a problem that points into the text. -/
theorem guardedReject_eq {problem : Problem} (h : problem.PointsInto db.buffer.text) :
    db.guardedReject n problem = some (db.reject n problem) := by
  rw [guardedReject, Reporter.guardedReport_eq _ h]
  rfl

/-- A game is read within the text its entry lies in. -/
theorem guardedReadAt_eq (h : entry.LiesIn db.buffer.text) :
    db.guardedReadAt n entry = some (db.readAt n entry) := by
  have hpoints : ∀ p ∈ (Game.read db.buffer db.options.strict n entry).problems,
      p.PointsInto db.buffer.text := fun p hp =>
    Game.ReadInside.pointsInto ⟨db.buffer, db.options.strict, n, entry, h, rfl⟩ hp
  unfold guardedReadAt readAt
  cases db.reusable? n entry with
  | some game => rfl
  | none =>
    simp only [Game.guardedRead_eq h, Option.bind_eq_bind, Option.bind_some,
      db.reporter.guardedReportAll_eq hpoints]
    rcases db.reporter.reportAll db.buffer
      (Game.read db.buffer db.options.strict n entry).problems with ⟨_ | failure, r⟩ <;> rfl

/-- The entries of a catalogue in order have their ends behind their starts. -/
theorem InOrder.wellPlaced (h : db.InOrder) (hentry : db.catalogue.entry? n = some entry) :
    entry.WellPlaced := by
  cases n with
  | zero => cases hentry
  | succ i => exact h.ordered.wellPlaced i entry hentry

/-- A read checks the place of a game before it uses it. -/
theorem guardedReadGame_eq (h : db.InOrder) (disk : Disk) (hn : n ≤ Catalogue.allGames) :
    db.guardedReadGame disk n = some (db.readGame disk n) := by
  unfold guardedReadGame readGame
  -- Each check has a reason: a catalogue in order, and an entry that is not stale.
  split
  · rfl
  · have hseen := h.refresh disk
    generalize db.refresh disk = result at hseen
    obtain ⟨_ | _, seen⟩ := result
    · rfl
    · have hreached := InOrder.indexTo hseen hn
      simp only [guardedIndexTo_eq, Option.bind_eq_bind, Option.bind_some]
      generalize seen.indexTo n = result at hreached
      obtain ⟨_ | count, reached⟩ := result
      · rfl
      · simp only at hreached ⊢
        split
        · rfl
        · cases hentry : reached.catalogue.entry? n with
          | none => rfl
          | some entry =>
            have hplaced := hreached.wellPlaced hentry
            simp only [guardedStale_eq hplaced, Option.bind_some]
            cases hstale : stale? reached.buffer.text n entry with
            | some problem =>
              simp only [guardedReject_eq (pointsInto_of_stale hplaced hstale), Option.bind_some]
            | none =>
              simp only [guardedReadAt_eq (liesIn_of_good hplaced hstale), Option.bind_some]
              rcases reached.readAt n entry with ⟨_ | reading, after⟩ <;> rfl

/-- Checking a game that was read reads nothing out of range. -/
theorem guardedCheck_eq (db : Database) (h : g.ReadInside) (depth : Depth) :
    db.guardedCheck g depth = some (db.check g depth) := by
  cases depth with
  | simple => rfl
  | deep =>
    rw [guardedCheck, db.reporter.guardedMention_eq fun p hp => h.pointsInto hp]
    rfl

/-- No event makes a database read out of range. -/
theorem guardedUndergo_eq (h : db.InOrder) (event : Event)
    (hcheck : ∀ g depth, event = .check g depth → g.ReadInside) :
    db.guardedUndergo event = some (db.undergo event) := by
  cases event with
  | index target => exact congrArg (Option.map Prod.snd) (db.guardedIndexTo_eq _)
  | count disk => exact congrArg (Option.map Prod.snd) (db.guardedGameCount_eq disk)
  | read n disk =>
    exact congrArg (Option.map Prod.snd) (guardedReadGame_eq h disk (toNat_le_allGames n))
  | next disk =>
    exact congrArg (Option.map Prod.snd) (guardedReadGame_eq h disk (Nat.min_le_right ..))
  | check g depth =>
    exact congrArg (Option.map Prod.snd) (db.guardedCheck_eq (hcheck g depth rfl) depth)
  | listen handler => rfl

/-! ## Games handed out -/

/-- The catalogue is in order, and the game read last was read at a place inside its text. -/
structure Inside (db : Database) : Prop where
  inOrder : db.InOrder
  current : ∀ g, db.current = some g → g.ReadInside

/-- The game read last stays inside the bytes it was read from. -/
theorem Inside.refresh (h : db.Inside) (disk : Disk) : (db.refresh disk).2.Inside := by
  refine ⟨h.inOrder.refresh disk, ?_⟩
  obtain ⟨_, _, hframe⟩ := db.refresh_frame disk
  rw [hframe]
  exact h.current

/-- A request for games does not touch the game read last. -/
theorem Inside.indexTo (h : db.Inside) {target : Nat} (htarget : target ≤ Catalogue.allGames) :
    (db.indexTo target).2.Inside :=
  ⟨h.inOrder.indexTo htarget, h.current⟩

/-- Reading at a place in the text leaves a game inside it. -/
theorem Inside.readAt (h : db.Inside) (hentry : entry.LiesIn db.buffer.text) (n : Nat) :
    (db.readAt n entry).2.Inside := by
  refine ⟨h.inOrder.readAt n entry, ?_⟩
  unfold Database.readAt
  split
  · next g hreuse =>
    rintro _ ⟨⟩
    exact h.current g (reusable?_eq_some hreuse).1
  · simp only
    split
    · exact h.current
    · rintro _ ⟨⟩
      exact ⟨db.buffer, db.options.strict, n, entry, hentry, rfl⟩

/-- No event leads outside. -/
theorem Inside.undergo (h : db.Inside) (event : Event) : (db.undergo event).Inside := by
  refine undergo_keeps event h h.refresh (fun _ _ htarget h => h.indexTo htarget)
    (fun _ n problem h => ⟨h.inOrder.reject n problem, h.current⟩) ?_
    fun _ => ⟨h.inOrder.of_catalogue_eq rfl, h.current⟩
  intro db n entry h hentry hgood
  exact h.readAt (liesIn_of_good (h.inOrder.wellPlaced hentry) hgood) n

/-- All games that are handed out were read at places inside their texts. -/
theorem Inside.handedOut (h : db.Inside) (events : List Event) :
    ∀ g ∈ db.handedOut events, g.ReadInside := by
  induction events generalizing db with
  | nil => exact nofun
  | cons event events ih =>
    intro g hg
    rw [handedOut_cons] at hg
    rcases List.mem_append.1 hg with hnow | hlater
    · have hafter := (undergo_arrives (Option.mem_toList.1 hnow)).2.1
      exact (h.undergo event).current g hafter
    · exact ih (h.undergo event) g hlater

/-- A database is opened inside. -/
theorem open_inside {origin : Origin} {name : String} {bytes : ByteArray} {strict : Bool}
    {prefetch : UInt32} (h : origin.open name bytes ⟨strict, prefetch.toNat⟩ = .ok db) :
    db.Inside :=
  open_keeps h (fun store _ => ⟨.unread store ⟨strict, prefetch.toNat⟩, nofun⟩)
    fun _ h => h.indexTo (toNat_le_allGames prefetch)

/-! ## The statement -/

/-- As `Origin.open`. -/
def guardedOpen (origin : Origin) (name : String) (bytes : ByteArray) (options : Options) :
    Option (Except Failure Database) :=
  match origin with
  | .memory => guardedOpenStore (.ofBytes name bytes) options
  | .file modified => guardedOpenStore (.ofFile name ⟨bytes, modified⟩) options

/-- The game was handed out, by whichever database and whatever happened to it before. -/
def Given (g : Game) : Prop :=
  ∃ (origin : Origin) (name : String) (bytes : ByteArray) (strict : Bool) (prefetch : UInt32)
    (db : Database) (events : List Event),
    origin.open name bytes ⟨strict, prefetch.toNat⟩ = .ok db ∧ g ∈ db.handedOut events

/-- A game that was handed out was read inside its bytes. -/
theorem Given.readInside (h : Given g) : g.ReadInside := by
  obtain ⟨origin, name, bytes, strict, prefetch, db, events, hopen, hg⟩ := h
  exact (open_inside hopen).handedOut events g hg

/-- No sequence of events makes a database read out of range. -/
theorem guardedUndergoAll_eq (h : db.InOrder) {events : List Event}
    (hchecks : ∀ g depth, .check g depth ∈ events → Given g) :
    db.guardedUndergoAll events = some (db.undergoAll events) := by
  induction events generalizing db with
  | nil => rfl
  | cons event events ih =>
    have hfirst := guardedUndergo_eq h event fun g depth heq =>
      (hchecks g depth (heq ▸ List.mem_cons_self)).readInside
    rw [guardedUndergoAll, List.foldlM_cons, hfirst]
    exact ih (h.undergo event) fun g depth hmem => hchecks g depth (List.mem_cons_of_mem _ hmem)

/-- Whatever becomes of the file of a database and whatever is asked of it, no range leaves the text
it belongs to. Every problem that is reported carries ranges that start before they end and end
inside the text it is reported of, and every byte read and every range cut out in cataloguing,
reading and checking lies in the text that is looked at. The same holds of the movetext of every
game that is handed out and of the texts of all lines that can be reached in it. -/
theorem ranges_stay_inside (origin : Origin) (name : String) (bytes : ByteArray) (strict : Bool)
    (prefetch : UInt32) :
    ∃ db, guardedOpen origin name bytes ⟨strict, prefetch.toNat⟩ = some (.ok db) ∧
      origin.open name bytes ⟨strict, prefetch.toNat⟩ = .ok db ∧
      ∀ events : List Event, (∀ g depth, .check g depth ∈ events → Given g) →
        db.guardedUndergoAll events = some (db.undergoAll events) ∧
        ∀ g ∈ db.handedOut events, g.guardedMovetext = some g.movetext ∧
          ∀ b ∈ g.score.mainLine.breadthFirst,
            g.guardedVariationText b.variation = some (g.variationText b.variation) := by
  obtain ⟨db, hopen, -⟩ := open_steady origin name bytes strict prefetch
  -- A database is opened alike from wherever its bytes are.
  have hguarded : guardedOpen origin name bytes ⟨strict, prefetch.toNat⟩ =
      some (origin.open name bytes ⟨strict, prefetch.toNat⟩) := by
    cases origin <;> exact guardedOpenStore_eq ..
  have hinside := open_inside hopen
  refine ⟨db, hopen ▸ hguarded, hopen, ?_⟩
  intro events hchecks
  refine ⟨guardedUndergoAll_eq hinside.inOrder hchecks, ?_⟩
  intro g hg
  have hread := hinside.handedOut events g hg
  exact ⟨hread.guardedMovetext_eq, fun b hb => hread.guardedVariationText_eq hb⟩

/-- Two games, `[A "b"] e4 (d4) *` and `[A "c"] e5 *`, on four lines. -/
def fourLines : ByteArray :=
  ⟨#[0x5b, 0x41, 0x20, 0x22, 0x62, 0x22, 0x5d, 0x0a, 0x65, 0x34, 0x20, 0x28, 0x64, 0x34, 0x29, 0x20,
    0x2a, 0x0a, 0x5b, 0x41, 0x20, 0x22, 0x63, 0x22, 0x5d, 0x0a, 0x65, 0x35, 0x20, 0x2a, 0x0a]⟩

/-- The first of the two games. -/
def twoLines : ByteArray :=
  fourLines.extract 0 18

/-- The first game is read and both are catalogued. Then the file is cut, and the second game is
found to lie behind its end. -/
theorem ranges_stay_inside_of_cut :
    let early : List Event := [.read 1 (.ok ⟨fourLines, 0⟩), .index 2]
    let late (g : Game) : List Event := [.read 2 (.ok ⟨twoLines, 1⟩), .check g .deep]
    ∃ db g, (Origin.file 0).open "games.pgn" fourLines ⟨true, 0⟩ = .ok db ∧
      g ∈ db.handedOut (early ++ late g) ∧
      (match (db.undergoAll early).outcome (.ok ⟨twoLines, 1⟩) 2 with
        | .error failure => failure.problem?
        | .ok _ => none) = some (.gameOutOfRange 2 ⟨18, 18⟩) ∧
      db.guardedUndergoAll (early ++ late g) = some (db.undergoAll (early ++ late g)) ∧
      ∀ b ∈ g.score.mainLine.breadthFirst,
        g.guardedVariationText b.variation = some "e4 (d4) *" ∨
          g.guardedVariationText b.variation = some "d4" := by
  intro early late
  obtain ⟨db, -, hopen, hinside⟩ := ranges_stay_inside (.file 0) "games.pgn" fourLines true 0
  obtain rfl : unread (.ofFile "games.pgn" ⟨fourLines, 0⟩) ⟨true, 0⟩ = db := Except.ok.inj hopen
  have htexts : ∀ g ∈ (unread (.ofFile "games.pgn" ⟨fourLines, 0⟩) ⟨true, 0⟩).handed?
      (.read 1 (.ok ⟨fourLines, 0⟩)), ∀ b ∈ g.score.mainLine.breadthFirst,
        g.variationText b.variation = "e4 (d4) *" ∨ g.variationText b.variation = "d4" := by
    decide +kernel
  obtain ⟨g, hg⟩ : ∃ g, (unread (.ofFile "games.pgn" ⟨fourLines, 0⟩) ⟨true, 0⟩).handed?
      (.read 1 (.ok ⟨fourLines, 0⟩)) = some g :=
    Option.isSome_iff_exists.1 (by decide +kernel)
  -- The first event hands the game out, whatever comes behind.
  have hfirst (events : List Event) :
      g ∈ (unread (.ofFile "games.pgn" ⟨fourLines, 0⟩) ⟨true, 0⟩).handedOut
        (.read 1 (.ok ⟨fourLines, 0⟩) :: events) := by
    rw [handedOut_cons, hg]
    exact List.mem_append_left _ (Option.mem_toList.2 rfl)
  have hchecks (g' : Game) (depth : Depth) (hmem : .check g' depth ∈ early ++ late g) :
      Given g' := by
    obtain ⟨rfl, -⟩ : g' = g ∧ depth = .deep := by simpa [early, late] using hmem
    exact ⟨.file 0, "games.pgn", fourLines, true, 0, _, _, hopen, hfirst []⟩
  obtain ⟨hguarded, hgames⟩ := hinside (early ++ late g) hchecks
  refine ⟨_, g, hopen, hfirst _, by decide +kernel, hguarded, ?_⟩
  intro b hb
  rw [(hgames g (hfirst _)).2 b hb]
  exact (htexts g hg b hb).imp (congrArg some) (congrArg some)

end Database

end Scorebook
