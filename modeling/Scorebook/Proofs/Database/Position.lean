import Scorebook.Proofs.Database.Access
import Scorebook.Proofs.Database.Events

/-!
# The reading position

The reading position is the number of the game read last, and that game itself. Only a read that
hands out a game moves it, and moves it to that game. A read can also come to nothing in many ways,
after the file was looked at, the catalogue extended or cut back and problems reported, and then the
position stays. So asking for the next game again and again goes through all games of content that
stays the same, if there is nothing that stops a read.
-/

namespace Scorebook

/-- No game of the text has a critical problem. -/
def Text.AllReadable (t : Text) (strict : Bool) : Prop :=
  ∀ entry ∈ t.games strict, Recoverable (Game.read ⟨0, t⟩ strict entry.ordinal entry).problems

/-- The game of this number as it is read from the text, counting from one. -/
def Buffer.game? (buffer : Buffer) (strict : Bool) : Nat → Option Game
  | 0 => none
  | i + 1 => (buffer.text.games strict)[i]?.map (Game.read buffer strict (i + 1))

/-- The games of a text are numbered from one on without a gap. -/
theorem Buffer.game?_isSome {buffer : Buffer} {strict : Bool} {n : Nat} (hn : n ≠ 0) :
    (buffer.game? strict n).isSome ↔ n ≤ (buffer.text.games strict).length := by
  obtain ⟨i, rfl⟩ := Nat.exists_eq_succ_of_ne_zero hn
  rw [game?, Option.isSome_map, Option.isSome_iff_ne_none, ne_eq, List.getElem?_eq_none_iff]
  omega

/-- There is no game behind the last. -/
theorem Buffer.game?_eq_none {buffer : Buffer} {strict : Bool} {n : Nat}
    (h : (buffer.text.games strict).length < n) : buffer.game? strict n = none := by
  rw [← Option.not_isSome_iff_eq_none, game?_isSome (by omega)]
  omega

namespace Database

/-! ## Answers -/

/-- What an event is answered by, if it is a read. -/
def answer? (db : Database) : Event → Option (Except Failure (Option Game))
  | .read n disk => some (db.outcome disk n.toNat)
  | .next disk => some ((db.readNext disk).1.map (Option.map Reading.game))
  | .index _ | .count _ | .check _ _ | .listen _ => none

/-- The game an event hands out, if it is a read and finds one. -/
def handed? (db : Database) (event : Event) : Option Game :=
  (db.answer? event).bind (·.toOption.join)

/-- The answers to the reads among events, the first one first. -/
def answers (db : Database) : List Event → List (Except Failure (Option Game))
  | [] => []
  | event :: events => (db.answer? event).toList ++ (db.undergo event).answers events

/-- The games handed out by the reads among events, the first one first. -/
def handedOut (db : Database) (events : List Event) : List Game :=
  (db.answers events).filterMap (·.toOption.join)

/-- What an event hands out is handed out in front of what the rest do. -/
theorem handedOut_cons (db : Database) (event : Event) (events : List Event) :
    db.handedOut (event :: events) =
      (db.handed? event).toList ++ (db.undergo event).handedOut events := by
  unfold handedOut handed?
  rw [answers, List.filterMap_append]
  cases db.answer? event with
  | none => rfl
  | some answer => cases hgame : answer.toOption.join <;> simp [hgame]

/-! ## One read -/

/-- What a read of game `n` does to the position of the database. -/
structure Moves (db : Database) (n : Nat) (answer : Option Game) (after : Database) : Prop where
  /-- A game that is handed out is the one asked for, and becomes the game read last. -/
  handed : ∀ g, answer = some g → g.number = n ∧ after.current = some g ∧ after.cursor = n
  /-- A read that hands out none leaves the position alone. -/
  stayed : answer = none → after.current = db.current ∧ after.cursor = db.cursor

variable {db : Database} {n : Nat}

/-- A database that hands out nothing stays where it is. -/
theorem Moves.of_none {after : Database} (hcurrent : after.current = db.current)
    (hcursor : after.cursor = db.cursor) : Moves db n none after :=
  ⟨nofun, fun _ => ⟨hcurrent, hcursor⟩⟩

/-- A database that hands out a game is at that game. -/
theorem Moves.of_game {after : Database} {g : Game} (hnumber : g.number = n)
    (hcurrent : after.current = some g) (hcursor : after.cursor = g.number) :
    Moves db n (some g) after := by
  refine ⟨?_, nofun⟩
  intro g' hg'
  cases hg'
  exact ⟨hnumber, hcurrent, hcursor.trans hnumber⟩

/-- What happened before the game was looked for did not move the position. -/
theorem Moves.of_frame {seen after : Database} {answer : Option Game}
    (h : Moves seen n answer after) (hcurrent : seen.current = db.current)
    (hcursor : seen.cursor = db.cursor) : Moves db n answer after :=
  ⟨h.handed, fun hnone => ⟨(h.stayed hnone).1.trans hcurrent, (h.stayed hnone).2.trans hcursor⟩⟩

/-- Reading at a place moves the database if it hands out a game. -/
theorem readAt_moves (db : Database) (n : Nat) (entry : Entry) :
    Moves db n ((db.readAt n entry).1.map Reading.game).toOption (db.readAt n entry).2 := by
  unfold readAt
  split
  · next g hreuse =>
    obtain ⟨-, hnumber, -⟩ := reusable?_eq_some hreuse
    exact .of_game hnumber rfl rfl
  · simp only
    split
    · exact .of_none rfl rfl
    · exact .of_game rfl rfl rfl

/-- Every read moves the position to the game it hands out, and leaves it alone if there is none,
wherever on its course it came to an end. -/
theorem readGame_moves (db : Database) (disk : Disk) (n : Nat) :
    Moves db n (db.outcome disk n).toOption.join (db.readGame disk n).2 := by
  -- Reading anew and cataloguing move nothing; only the read behind them does.
  have hreached {seen reached : Database} {answer : Except Failure Nat}
      (hseen : db.refresh disk = (.ok (), seen)) (hindex : seen.indexTo n = (answer, reached)) :
      reached.current = db.current ∧ reached.cursor = db.cursor := by
    obtain ⟨store, catalogue, hframe⟩ := db.refresh_frame disk
    rw [hseen] at hframe
    cases hframe
    cases hindex
    exact ⟨rfl, rfl⟩
  -- By the ways in which a read can go, of which one hands out a game.
  have hcourse := db.readGame_course disk n
  unfold outcome
  generalize db.readGame disk n = result at hcourse ⊢
  cases hcourse with
  | zero => exact .of_none rfl rfl
  | unseen _ hseen =>
    obtain ⟨store, catalogue, hframe⟩ := db.refresh_frame disk
    rw [hseen] at hframe
    cases hframe
    exact .of_none rfl rfl
  | unreached _ hseen hindex | absent _ hseen hindex =>
    obtain ⟨hcurrent, hcursor⟩ := hreached hseen hindex
    exact .of_none hcurrent hcursor
  | stale _ hseen hindex =>
    obtain ⟨hcurrent, hcursor⟩ := hreached hseen hindex
    exact .of_none hcurrent hcursor
  | @read seen reached count entry _ hseen hindex =>
    obtain ⟨hcurrent, hcursor⟩ := hreached hseen hindex
    have hread := (reached.readAt_moves n entry).of_frame hcurrent hcursor
    generalize reached.readAt n entry = result at hread ⊢
    obtain ⟨answer, after⟩ := result
    cases answer <;> exact hread

/-! ## Any events -/

/-- The position is that of the last of these games, or in front of the first if there is none. -/
structure StandsAt (db : Database) (games : List Game) : Prop where
  current : db.current = games.getLast?
  cursor : db.cursor = (games.getLast?.map Game.number).getD 0

/-- An event that is no read, or a read that hands out no game, leaves the position alone. -/
theorem undergo_stays {event : Event} (h : db.handed? event = none) :
    (db.undergo event).current = db.current ∧ (db.undergo event).cursor = db.cursor := by
  cases event with
  | index target => exact ⟨rfl, rfl⟩
  | count disk =>
    obtain ⟨store, catalogue, hframe⟩ := db.refresh_frame disk
    show (db.gameCount disk).2.current = _ ∧ (db.gameCount disk).2.cursor = _
    unfold gameCount
    generalize db.refresh disk = result at hframe
    obtain ⟨answer, seen⟩ := result
    cases hframe
    cases answer <;> exact ⟨rfl, rfl⟩
  | read n disk => exact (db.readGame_moves disk n.toNat).stayed h
  | next disk => exact (db.readGame_moves disk _).stayed h
  | check g depth => exact ⟨rfl, rfl⟩
  | listen handler => exact ⟨rfl, rfl⟩

/-- The number an event asks for, if it is a read. -/
def asked? (db : Database) : Event → Option Nat
  | .read n _ => some n.toNat
  | .next _ => some (min (db.cursor + 1) Catalogue.allGames)
  | .index _ | .count _ | .check _ _ | .listen _ => none

/-- A read that hands out a game moves the position to it. -/
theorem undergo_arrives {event : Event} {g : Game} (h : db.handed? event = some g) :
    db.asked? event = some g.number ∧ (db.undergo event).current = some g ∧
      (db.undergo event).cursor = g.number := by
  cases event with
  | read n disk =>
    obtain ⟨hnumber, hcurrent, hcursor⟩ := (db.readGame_moves disk n.toNat).handed g h
    exact ⟨congrArg some hnumber.symm, hcurrent, hcursor.trans hnumber.symm⟩
  | next disk =>
    obtain ⟨hnumber, hcurrent, hcursor⟩ := (db.readGame_moves disk _).handed g h
    exact ⟨congrArg some hnumber.symm, hcurrent, hcursor.trans hnumber.symm⟩
  | index | count | check | listen => cases h

/-- After an event the database stands at the last game that was handed out. -/
theorem StandsAt.undergo {games : List Game} (h : db.StandsAt games) (event : Event) :
    (db.undergo event).StandsAt (games ++ (db.handed? event).toList) := by
  cases hhanded : db.handed? event with
  | none =>
    obtain ⟨hcurrent, hcursor⟩ := undergo_stays hhanded
    rw [Option.toList_none, List.append_nil]
    exact ⟨hcurrent.trans h.current, hcursor.trans h.cursor⟩
  | some g =>
    obtain ⟨-, hcurrent, hcursor⟩ := undergo_arrives hhanded
    have hlast : (games ++ [g]).getLast? = some g := List.getLast?_concat ..
    exact ⟨hcurrent.trans hlast.symm, by rw [hcursor, Option.toList_some, hlast]; rfl⟩

/-- So it does after all of them. -/
theorem StandsAt.undergoAll {games : List Game} (h : db.StandsAt games) (events : List Event) :
    (db.undergoAll events).StandsAt (games ++ db.handedOut events) := by
  induction events generalizing db games with
  | nil =>
    rw [show db.handedOut [] = [] from rfl, List.append_nil]
    exact h
  | cons event events ih =>
    rw [handedOut_cons, ← List.append_assoc]
    exact ih (h.undergo event)

/-- A database is opened in front of its first game. -/
theorem open_standsAt {origin : Origin} {name : String} {bytes : ByteArray} {options : Options}
    (h : origin.open name bytes options = .ok db) : db.StandsAt [] :=
  open_keeps (P := (StandsAt · [])) h (fun _ _ => ⟨rfl, rfl⟩) fun _ h => ⟨h.current, h.cursor⟩

/-! ## Content that stays the same -/

/-- A request that may come between requests for the next game: it asks for no game by its number
and installs no handler that would stop anything. -/
def Request.Onward : Request → Prop
  | .read .. => False
  | .listen (some h) => h.Obliging
  | .index _ | .count _ | .next _ | .check .. | .listen none => True

/-- The request as an event that finds these bytes on disk. -/
def Request.event (bytes : ByteArray) : Request → Event
  | .index target => .index target
  | .count modified => .count (.ok ⟨bytes, modified⟩)
  | .read n modified => .read n (.ok ⟨bytes, modified⟩)
  | .next modified => .next (.ok ⟨bytes, modified⟩)
  | .check g depth => .check g depth
  | .listen handler => .listen handler

/-- A session on content that stays the same, in which every handler accepts every report. -/
structure Unimpeded (db : Database) (bytes : ByteArray) (strict : Bool) : Prop where
  steady : db.Steady bytes strict
  obliging : db.reporter.Obliging

variable {bytes : ByteArray} {strict : Bool}

/-- A request for games is answered, and leaves the database unimpeded. -/
theorem Unimpeded.indexTo (h : db.Unimpeded bytes strict) {target : Nat}
    (htarget : target ≤ Catalogue.allGames) :
    (db.indexTo target).1 = .ok (db.indexTo target).2.catalogue.entries.size ∧
      (db.indexTo target).2.Unimpeded bytes strict := by
  obtain ⟨hanswer, hafter⟩ :=
    Catalogue.ensure_of_obliging db.options.strict db.buffer target db.catalogue h.obliging
  exact ⟨hanswer, h.steady.indexTo htarget, hafter⟩

/-- A look at the unchanged file leaves the database unimpeded. -/
theorem Unimpeded.refresh (h : db.Unimpeded bytes strict) (modified : Nat) :
    ∃ store, db.refresh (.ok ⟨bytes, modified⟩) = (.ok (), { db with store }) ∧
      { db with store }.Unimpeded bytes strict := by
  obtain ⟨store, hrefresh, hsteady⟩ := h.steady.refresh modified
  exact ⟨store, hrefresh, hsteady, h.obliging⟩

/-- A game nothing critical was found in is read, now or again. -/
theorem Unimpeded.readAt (h : db.Unimpeded bytes strict) {i : Nat} {entry : Entry}
    (hentry : ((Text.ofBytes bytes).games strict)[i]? = some entry)
    (hreadable : Recoverable (Game.read ⟨0, .ofBytes bytes⟩ strict entry.ordinal entry).problems) :
    (∃ key, (db.readAt (i + 1) entry).1.map Reading.game =
        .ok (Game.read ⟨key, .ofBytes bytes⟩ strict (i + 1) entry)) ∧
      (db.readAt (i + 1) entry).2.Unimpeded bytes strict := by
  have hafter := (h.steady.readAt hentry).steady
  have hbuffer : db.buffer = ⟨db.buffer.key, .ofBytes bytes⟩ :=
    congrArg (Buffer.mk db.buffer.key) h.steady.text_eq
  unfold Database.readAt at hafter ⊢
  split
  · -- The game that was handed out last is handed out again, and it is a game of this text.
    next g hreuse =>
    obtain ⟨hcurrent, hnumber, -⟩ := reusable?_eq_some hreuse
    rw [hreuse] at hafter
    refine ⟨?_, hafter, h.obliging⟩
    obtain ⟨key, j, e, he, rfl⟩ := h.steady.current g hcurrent
    cases hnumber
    cases he.symm.trans hentry
    exact ⟨key, rfl⟩
  · -- Otherwise the entry is read, and none of its problems stops an obliging reporter.
    next hfresh =>
    obtain ⟨hanswer, hobliging⟩ := h.obliging.reportAll db.buffer
      (Game.read db.buffer db.options.strict (i + 1) entry).problems
    have hproblems : (Game.read db.buffer db.options.strict (i + 1) entry).problems =
        (Game.read ⟨0, .ofBytes bytes⟩ strict entry.ordinal entry).problems := by
      rw [hbuffer, h.steady.catalogued.strict_eq]
      rfl
    have hnone := h.obliging.yielding.reportAll_of_recoverable db.buffer (hproblems ▸ hreadable)
    simp only [hfresh] at hafter ⊢
    generalize db.reporter.reportAll db.buffer _ = result at hnone hobliging hafter ⊢
    obtain ⟨failure, reporter⟩ := result
    cases hnone
    refine ⟨⟨db.buffer.key, ?_⟩, hafter, hobliging⟩
    rw [hbuffer, h.steady.catalogued.strict_eq]
    rfl

/-- While nothing stops a read, it finds the game of its number. -/
theorem Unimpeded.readGame (h : db.Unimpeded bytes strict)
    (hreadable : (Text.ofBytes bytes).AllReadable strict) (modified : Nat)
    (hn : n ≤ Catalogue.allGames) :
    (∃ key, db.outcome (.ok ⟨bytes, modified⟩) n =
        .ok (Buffer.game? ⟨key, .ofBytes bytes⟩ strict n)) ∧
      (db.readGame (.ok ⟨bytes, modified⟩) n).2.Unimpeded bytes strict := by
  obtain ⟨store, hrefresh, hseen⟩ := h.refresh modified
  obtain ⟨hanswer, hreached⟩ := hseen.indexTo hn
  have hcourse := db.readGame_course (.ok ⟨bytes, modified⟩) n
  unfold outcome
  generalize db.readGame (.ok ⟨bytes, modified⟩) n = result at hcourse ⊢
  -- A file that has not changed is not found stale, and cataloguing reaches its target.
  cases hcourse with
  | zero hn =>
    subst hn
    exact ⟨⟨0, rfl⟩, h⟩
  | unseen _ hseen => cases hseen.symm.trans hrefresh
  | unreached _ hseen hindex =>
    cases hseen.symm.trans hrefresh
    cases (congrArg Prod.fst hindex).symm.trans hanswer
  | @absent seen reached count hn' hseen' hindex habsent =>
    cases hseen'.symm.trans hrefresh
    rw [hindex] at hanswer hreached
    refine ⟨⟨0, ?_⟩, hreached⟩
    obtain ⟨i, rfl⟩ := Nat.exists_eq_succ_of_ne_zero hn'
    obtain ⟨hsize, hcount⟩ :=
      (hseen.steady.catalogued.ensured (i + 1)).of_ok count (by rw [hindex])
    -- The text has fewer games than were asked for: there is no entry although all are known.
    have hfew : count ≤ i := by
      rcases habsent with hlt | hnone
      · exact Nat.le_of_lt_succ hlt
      · rw [hsize, hindex]
        exact Array.getElem?_eq_none_iff.1 hnone
    rw [hseen.steady.text_eq] at hcount
    have hnone : ((Text.ofBytes bytes).games strict)[i]? = none := by
      rw [List.getElem?_eq_none_iff]
      omega
    exact congrArg (fun entry => Except.ok (Option.map _ entry)) hnone.symm
  | stale _ hseen' hindex hcount hentry hstale =>
    cases hseen'.symm.trans hrefresh
    rw [hindex] at hreached
    obtain ⟨i, rfl, hget, hgood⟩ := hreached.steady.entry_good hentry
    cases hstale.symm.trans hgood
  | @read seen reached count entry _ hseen' hindex hcount hentry hstale =>
    cases hseen'.symm.trans hrefresh
    rw [hindex] at hreached
    obtain ⟨i, rfl, hget, hgood⟩ := hreached.steady.entry_good hentry
    obtain ⟨⟨key, hgame⟩, hafter⟩ :=
      hreached.readAt hget (hreadable entry (List.mem_of_getElem? hget))
    refine ⟨⟨key, ?_⟩, hafter⟩
    have hfound : Buffer.game? ⟨key, .ofBytes bytes⟩ strict (i + 1) =
        some (Game.read ⟨key, .ofBytes bytes⟩ strict (i + 1) entry) :=
      congrArg (Option.map _) hget
    rw [hfound]
    generalize (reached.readAt (i + 1) entry).1 = answer at hgame ⊢
    cases answer with
    | error failure => cases hgame
    | ok reading => exact congrArg (Except.map some) hgame

/-- An unimpeded database may get any reporter that goes on. -/
theorem Unimpeded.withReporter (h : db.Unimpeded bytes strict) {r : Reporter} (hr : r.Obliging) :
    { db with reporter := r }.Unimpeded bytes strict :=
  ⟨h.steady.withReporter r, hr⟩

/-- Every request leaves the database unimpeded. -/
theorem Unimpeded.undergo (h : db.Unimpeded bytes strict)
    (hreadable : (Text.ofBytes bytes).AllReadable strict) {request : Request}
    (hrequest : request.Onward) :
    (db.undergo (request.event bytes)).Unimpeded bytes strict := by
  cases request with
  | index target => exact (h.indexTo (toNat_le_allGames target)).2
  | count modified =>
    obtain ⟨store, hrefresh, hseen⟩ := h.refresh modified
    show (db.gameCount _).2.Unimpeded bytes strict
    rw [gameCount, hrefresh]
    exact (hseen.indexTo (Nat.le_refl _)).2
  | read n modified => cases hrequest
  | next modified => exact (h.readGame hreadable modified (Nat.min_le_right ..)).2
  -- A check reports to whoever listens, but leaves the catalogue and the position.
  | check g depth =>
    refine h.withReporter ?_
    cases depth with
    | simple => exact h.obliging
    | deep => exact h.obliging.mention g.buffer g.problems
  | listen handler =>
    refine h.withReporter ?_
    rintro heard rfl
    exact hrequest

/-- Asking for the next game finds it, and moves on to it if it is there. -/
theorem Unimpeded.readNext (h : db.Unimpeded bytes strict)
    (hreadable : (Text.ofBytes bytes).AllReadable strict) {k : Nat}
    (hcursor : db.cursor =
      min k (min ((Text.ofBytes bytes).games strict).length Catalogue.allGames))
    (modified : Nat) :
    (∃ key, db.answer? (.next (.ok ⟨bytes, modified⟩)) =
        some (.ok (Buffer.game? ⟨key, .ofBytes bytes⟩ strict (min (k + 1) Catalogue.allGames)))) ∧
      (db.undergo (.next (.ok ⟨bytes, modified⟩))).cursor =
        min (k + 1) (min ((Text.ofBytes bytes).games strict).length Catalogue.allGames) := by
  have hall : 0 < Catalogue.allGames := by decide
  have hpositive : min (db.cursor + 1) Catalogue.allGames ≠ 0 := by omega
  obtain ⟨⟨key, houtcome⟩, -⟩ := h.readGame hreadable modified
    (Nat.min_le_right (db.cursor + 1) Catalogue.allGames)
  have hmoves := db.readGame_moves (.ok ⟨bytes, modified⟩) (min (db.cursor + 1) Catalogue.allGames)
  rw [houtcome] at hmoves
  change Moves db _ (Buffer.game? _ _ _) _ at hmoves
  -- There is a next game if the position is in front of the last one.
  have hfound : (Buffer.game? ⟨key, .ofBytes bytes⟩ strict
        (min (db.cursor + 1) Catalogue.allGames)).isSome ↔
      min (db.cursor + 1) Catalogue.allGames ≤ ((Text.ofBytes bytes).games strict).length :=
    Buffer.game?_isSome hpositive
  constructor
  · refine ⟨key, (congrArg some houtcome).trans ?_⟩
    congr 2
    -- Behind the last game every number is as good as the next.
    rcases Nat.lt_or_ge ((Text.ofBytes bytes).games strict).length k with hlt | hle
    · rcases Nat.lt_or_ge ((Text.ofBytes bytes).games strict).length Catalogue.allGames with
        hcounted | huncounted
      · have hbeyond {n : Nat} (hn : ((Text.ofBytes bytes).games strict).length < n) :
            Buffer.game? ⟨key, .ofBytes bytes⟩ strict n = none :=
          Buffer.game?_eq_none hn
        rw [hbeyond (by omega), hbeyond (by omega)]
      · congr 1
        omega
    · congr 1
      omega
  · show (db.readGame _ _).2.cursor = _
    -- The position moves with the game that is handed out, and stays without one.
    generalize Buffer.game? ⟨key, .ofBytes bytes⟩ strict _ = answer at hmoves hfound
    cases answer with
    | none =>
      have hbeyond := (not_congr hfound).1 nofun
      rw [(hmoves.stayed rfl).2]
      omega
    | some g =>
      have hthere := hfound.1 rfl
      rw [(hmoves.handed g rfl).2.2]
      omega

/-- The answers to requests for the next game, if `k` such requests were made before. -/
theorem Unimpeded.answers (h : db.Unimpeded bytes strict)
    (hreadable : (Text.ofBytes bytes).AllReadable strict) {requests : List Request}
    (hrequests : ∀ request ∈ requests, request.Onward) {k : Nat}
    (hcursor : db.cursor =
      min k (min ((Text.ofBytes bytes).games strict).length Catalogue.allGames))
    {i : Nat} {answer : Except Failure (Option Game)}
    (hanswer : (db.answers (requests.map (Request.event bytes)))[i]? = some answer) :
    ∃ key, answer = .ok
      (Buffer.game? ⟨key, .ofBytes bytes⟩ strict (min (k + i + 1) Catalogue.allGames)) := by
  -- By induction on the requests. Only `next` is answered with a game and moves the position.
  induction requests generalizing db k i with
  | nil => cases hanswer
  | cons request requests ih =>
    obtain ⟨honward, hlater⟩ := List.forall_mem_cons.1 hrequests
    have hafter := h.undergo hreadable honward
    rw [List.map_cons, Database.answers] at hanswer
    by_cases hnext : ∃ modified, request = .next modified
    · obtain ⟨modified, rfl⟩ := hnext
      obtain ⟨⟨key, hfirst⟩, hmoved⟩ := h.readNext hreadable hcursor modified
      rw [Request.event, hfirst] at hanswer
      cases i with
      | zero =>
        cases hanswer
        exact ⟨key, rfl⟩
      | succ i =>
        obtain ⟨key', hlast⟩ := ih hafter hlater hmoved hanswer
        rw [show k + 1 + i + 1 = k + (i + 1) + 1 by omega] at hlast
        exact ⟨key', hlast⟩
    · have hnone : db.answer? (request.event bytes) = none := by
        cases request with
        | read => cases honward
        | next modified => exact absurd ⟨modified, rfl⟩ hnext
        | index | count | check | listen => rfl
      rw [hnone] at hanswer
      have hstays := (undergo_stays (show db.handed? (request.event bytes) = none by
        rw [handed?, hnone]; rfl)).2
      exact ih hafter hlater (hstays.trans hcursor) hanswer

/-! ## The statement -/

/-- A database is opened unimpeded. -/
theorem open_unimpeded {origin : Origin} {name : String} {prefetch : UInt32}
    (h : origin.open name bytes ⟨strict, prefetch.toNat⟩ = .ok db) :
    db.Unimpeded bytes strict :=
  open_keeps (P := (Unimpeded · bytes strict)) h
    (fun _ htext => ⟨.unread htext ⟨strict, prefetch.toNat⟩, .empty⟩)
    fun _ h => (h.indexTo (toNat_le_allGames prefetch)).2

/-- Only a read that hands out a game moves the reading position. Behind any events, whatever became
of the file and whoever listened, the game read last and its number are those of the last read that
handed out a game, and the next event leaves them alone unless it is another such read. So while the
content stays and nothing stops a read, asking for the next game goes through all games in order,
each of them once, and then finds none for ever; only a number that is the greatest there is stays
where it is. -/
theorem position_follows_reads (origin : Origin) (name : String) (bytes : ByteArray)
    (strict : Bool) (prefetch : UInt32) :
    ∃ db, origin.open name bytes ⟨strict, prefetch.toNat⟩ = .ok db ∧
      (∀ events event,
        let now := db.undergoAll events
        let after := now.undergo event
        now.current = (db.handedOut events).getLast? ∧
          now.cursor = ((db.handedOut events).getLast?.map Game.number).getD 0 ∧
          (∀ g, now.handed? event = some g → now.asked? event = some g.number ∧
            after.current = some g ∧ after.cursor = g.number) ∧
          (now.handed? event = none → after.current = now.current ∧ after.cursor = now.cursor)) ∧
      ((Text.ofBytes bytes).AllReadable strict →
        ∀ requests : List Request, (∀ request ∈ requests, request.Onward) →
          ∀ (i : Nat) (answer : Except Failure (Option Game)),
            (db.answers (requests.map (Request.event bytes)))[i]? = some answer →
            ∃ key, answer = .ok
                (Buffer.game? ⟨key, .ofBytes bytes⟩ strict (min (i + 1) Catalogue.allGames)) ∧
              (((Text.ofBytes bytes).games strict).length < Catalogue.allGames →
                answer = .ok (Buffer.game? ⟨key, .ofBytes bytes⟩ strict (i + 1)))) := by
  obtain ⟨db, hopen, -⟩ := open_steady origin name bytes strict prefetch
  have hstart := open_standsAt hopen
  refine ⟨db, hopen, ?_, ?_⟩
  · intro events event now after
    have hnow : now.StandsAt (db.handedOut events) := hstart.undergoAll events
    exact ⟨hnow.current, hnow.cursor, fun g => undergo_arrives, undergo_stays⟩
  · intro hreadable requests hrequests i answer hanswer
    obtain ⟨key, hgame⟩ := (open_unimpeded hopen).answers hreadable hrequests
      (show db.cursor = min 0 _ by rw [hstart.cursor, Nat.zero_min]; rfl) hanswer
    rw [Nat.zero_add] at hgame
    refine ⟨key, hgame, ?_⟩
    intro hcounted
    rw [hgame]
    -- A text with more games than can be numbered is excluded here.
    rcases Nat.lt_or_ge Catalogue.allGames (i + 1) with hlt | hle
    · have hbeyond {n : Nat} (hn : ((Text.ofBytes bytes).games strict).length < n) :
          Buffer.game? ⟨key, .ofBytes bytes⟩ strict n = none :=
        Buffer.game?_eq_none hn
      rw [hbeyond (by omega), hbeyond (by omega)]
    · rw [Nat.min_eq_left hle]

/-- A text of two games in one line each. -/
def pairOfGames : ByteArray :=
  ⟨#[0x5b, 0x41, 0x20, 0x22, 0x62, 0x22, 0x5d, 0x20, 0x65, 0x34, 0x20, 0x2a, 0x0a, 0x5b, 0x41, 0x20,
    0x22, 0x63, 0x22, 0x5d, 0x20, 0x65, 0x35, 0x20, 0x2a, 0x0a]⟩

/-- Both games are given in order, and then none for ever, while the file is touched, games are
counted and a handler listens. -/
theorem position_follows_reads_through_pair :
    let requests : List Request :=
      [.next 0, .listen (some ⟨fun _ _ => true⟩), .index 2, .next 1, .count 1, .next 2, .next 2]
    (Text.ofBytes pairOfGames).AllReadable true ∧ (∀ request ∈ requests, request.Onward) ∧
      ∃ db, (Origin.file 0).open "pair.pgn" pairOfGames ⟨true, 0⟩ = .ok db ∧
        (db.answers (requests.map (Request.event pairOfGames))).map
            (·.toOption.join.map Game.number) = [some 1, some 2, none, none] ∧
        ∀ (i : Nat) (answer : Except Failure (Option Game)),
          (db.answers (requests.map (Request.event pairOfGames)))[i]? = some answer →
          ∃ key, answer = .ok (Buffer.game? ⟨key, .ofBytes pairOfGames⟩ true (i + 1)) := by
  intro requests
  have hreadable : (Text.ofBytes pairOfGames).AllReadable true := by
    unfold Text.AllReadable Recoverable
    decide +kernel
  have hrequests : ∀ request ∈ requests, request.Onward := by
    simp [requests, Request.Onward, Handler.Obliging]
  have hcounted : ((Text.ofBytes pairOfGames).games true).length < Catalogue.allGames := by
    decide +kernel
  obtain ⟨db, hopen, -, hanswers⟩ := position_follows_reads (.file 0) "pair.pgn" pairOfGames true 0
  obtain rfl : unread (.ofFile "pair.pgn" ⟨pairOfGames, 0⟩) ⟨true, 0⟩ = db := Except.ok.inj hopen
  refine ⟨hreadable, hrequests, _, hopen, by decide +kernel, ?_⟩
  intro i answer hanswer
  obtain ⟨key, -, hgame⟩ := hanswers hreadable requests hrequests i answer hanswer
  exact ⟨key, hgame hcounted⟩

end Database

end Scorebook
