import Scorebook.Proofs.Database.Sessions
import Scorebook.Proofs.Strictness.Listening

/-!
# Strict reading only adds reports

A `Session` is a database together with the games it has handed out, so that they can be checked
later. Two sessions on the same content, one of them strict, are asked for the same things, and to
both somebody listens who goes on whatever is reported. `Database.strict_only_adds` compares them:
whatever is asked for, they answer alike, and what the lenient session passes on is what the strict
one passes on, less the advice.

Places are told apart by line and column, and a column stops at its last value. So that nothing is
hidden by advice is a matter of lines that are short enough for their columns; that nothing is lost
is not.
-/

namespace Scorebook

open Catalogue (ComesBy Keeps scanStart)
open Reporter (Abreast)

/-- The answer with ordinary problems only. -/
def Reading.ordinary (reading : Reading) : Reading :=
  { reading with game := reading.game.ordinary }

/-- What is asked of a database by somebody who keeps the games that are handed out. Requests that
look at the file come with the modification time they find. -/
inductive Operation
  | index (target : UInt32)
  | count (modified : Nat)
  | read (n : UInt32) (modified : Nat)
  | next (modified : Nat)
  /-- Checks one of the games handed out, counting from zero. -/
  | check (held : Nat) (depth : Depth)

/-- What an operation answers. -/
inductive Answer
  | count (answer : Except Failure Nat)
  | read (answer : Except Failure (Option Reading))
  | check (answer : Option Verdict)

/-- The answer with ordinary problems only. -/
def Answer.ordinary : Answer → Answer
  | .count answer => .count answer
  | .read answer => .read (answer.map (Option.map Reading.ordinary))
  | .check answer => .check answer

/-- A database and the games it has handed out, in order. -/
structure Session where
  db : Database
  held : List Game

namespace Session

/-- The session behind a read. -/
def receive (session : Session) (result : Except Failure (Option Reading) × Database) :
    Answer × Session :=
  (.read result.1, ⟨result.2, session.held ++ (result.1.toOption.join.map Reading.game).toList⟩)

/-- The answer to an operation and the session behind it, if the file holds these bytes. -/
def operate (bytes : ByteArray) (session : Session) : Operation → Answer × Session
  | .index target =>
    let (answer, db) := session.db.indexTo target.toNat
    (.count answer, { session with db })
  | .count modified =>
    let (answer, db) := session.db.gameCount (.ok ⟨bytes, modified⟩)
    (.count answer, { session with db })
  | .read n modified => session.receive (session.db.readGame (.ok ⟨bytes, modified⟩) n.toNat)
  | .next modified => session.receive (session.db.readNext (.ok ⟨bytes, modified⟩))
  | .check held depth =>
    match session.held[held]? with
    | none => (.check none, session)
    | some game =>
      let (verdict, db) := session.db.check game depth
      (.check (some verdict), { session with db })

/-- The answers to operations, the first one first, and the session behind them. -/
def operateAll (bytes : ByteArray) (session : Session) : List Operation → List Answer × Session
  | [] => ([], session)
  | operation :: rest =>
    let (answer, session) := session.operate bytes operation
    let (answers, session) := session.operateAll bytes rest
    (answer :: answers, session)

end Session

namespace Database

variable {R : Reporter → Reporter → Prop} {bytes : ByteArray} {l s : Database}

/-- What two databases of the same content have in common, the second of them strict. Their
reporters are related by `R`. -/
structure Parallel (R : Reporter → Reporter → Prop) (bytes : ByteArray) (l s : Database) :
    Prop where
  lenient : l.Steady bytes false
  strict : s.Steady bytes true
  store_eq : l.store = s.store
  catalogue_eq : l.catalogue = s.catalogue
  cursor_eq : l.cursor = s.cursor
  current_eq : l.current = s.current.map Game.ordinary
  comesBy : ComesBy (.ofBytes bytes) (scanStart (.ofBytes bytes) s.catalogue.resume)
  reporter : R l.reporter s.reporter

/-- The two databases look at the same bytes. -/
theorem Parallel.buffer_eq (h : Parallel R bytes l s) : l.buffer = s.buffer :=
  congrArg (·.current.buffer) h.store_eq

/-! ## Cataloguing -/

/-- A request for games is answered alike and keeps the databases parallel. -/
theorem Parallel.indexTo (hkeeps : Keeps R (.ofBytes bytes)) (h : Parallel R bytes l s)
    {target : Nat} (htarget : target ≤ Catalogue.allGames) :
    (l.indexTo target).1 = (s.indexTo target).1 ∧
      Parallel R bytes (l.indexTo target).2 (s.indexTo target).2 := by
  have halike := hkeeps.ensure h.strict.text_eq h.reporter h.comesBy target
  have hlenient := h.lenient.indexTo htarget
  have hstrict := h.strict.indexTo htarget
  unfold Database.indexTo at *
  rw [h.lenient.catalogued.strict_eq, h.buffer_eq, h.catalogue_eq] at *
  rw [h.strict.catalogued.strict_eq] at *
  exact ⟨halike.answer, hlenient, hstrict, h.store_eq, halike.catalogue, h.cursor_eq, h.current_eq,
    halike.comesBy, halike.reporter⟩

/-- A refresh that succeeds leaves the store as it refreshed it. -/
theorem store_of_refresh {db after : Database} {disk : Disk}
    (h : db.refresh disk = (.ok (), after)) : db.store.refresh disk = .ok after.store := by
  unfold refresh at h
  split at h
  · cases h
  · next store hstore =>
    cases h
    exact hstore

/-- Both databases look at the file. -/
theorem Parallel.refresh (h : Parallel R bytes l s) (modified : Nat) :
    ∃ store, l.refresh (.ok ⟨bytes, modified⟩) = (.ok (), { l with store }) ∧
      s.refresh (.ok ⟨bytes, modified⟩) = (.ok (), { s with store }) ∧
      Parallel R bytes { l with store } { s with store } := by
  obtain ⟨store, hl, hlenient⟩ := h.lenient.refresh modified
  obtain ⟨store', hs, hstrict⟩ := h.strict.refresh modified
  have hsame : store = store' := by
    have hstore := store_of_refresh hl
    rw [h.store_eq, store_of_refresh hs] at hstore
    exact (Except.ok.inj hstore).symm
  subst hsame
  exact ⟨store, hl, hs, hlenient, hstrict, rfl, h.catalogue_eq, h.cursor_eq, h.current_eq,
    h.comesBy, h.reporter⟩

/-- The games are counted alike. -/
theorem Parallel.gameCount (hkeeps : Keeps R (.ofBytes bytes)) (h : Parallel R bytes l s)
    (modified : Nat) :
    (l.gameCount (.ok ⟨bytes, modified⟩)).1 = (s.gameCount (.ok ⟨bytes, modified⟩)).1 ∧
      Parallel R bytes (l.gameCount (.ok ⟨bytes, modified⟩)).2
        (s.gameCount (.ok ⟨bytes, modified⟩)).2 := by
  obtain ⟨store, hl, hs, hseen⟩ := h.refresh modified
  rw [Database.gameCount, Database.gameCount, hl, hs]
  exact hseen.indexTo hkeeps (Nat.le_refl _)

/-! ## Reading -/

variable {n i : Nat} {entry : Entry}

/-- The game read last is handed out again by both databases or by none. -/
theorem Parallel.reusable?_eq (h : Parallel R bytes l s) (n : Nat) (entry : Entry) :
    l.reusable? n entry = (s.reusable? n entry).map Game.ordinary := by
  rw [reusable?, reusable?, h.current_eq, h.buffer_eq, Option.filter_map]
  rfl

/-- Arriving at the same game, with and without advice, keeps the databases parallel. -/
theorem Parallel.arriveAt (h : Parallel R bytes l s) {g : Game}
    (hlenient : (l.arriveAt g.ordinary).Steady bytes false)
    (hstrict : (s.arriveAt g).Steady bytes true) :
    Parallel R bytes (l.arriveAt g.ordinary) (s.arriveAt g) :=
  ⟨hlenient, hstrict, h.store_eq, h.catalogue_eq, rfl, rfl, h.comesBy, h.reporter⟩

/-- Databases stay parallel with reporters that are related. -/
theorem Parallel.withReporter (h : Parallel R bytes l s) {r r' : Reporter} (hr : R r r') :
    Parallel R bytes { l with reporter := r } { s with reporter := r' } :=
  ⟨h.lenient.withReporter r, h.strict.withReporter r', h.store_eq, h.catalogue_eq, h.cursor_eq,
    h.current_eq, h.comesBy, hr⟩

/-- A game is read by both databases alike. -/
theorem Parallel.readAt (h : Parallel (Abreast (.ofBytes bytes)) bytes l s)
    (hentry : ((Text.ofBytes bytes).games true)[i]? = some entry) :
    (l.readAt (i + 1) entry).1 = (s.readAt (i + 1) entry).1.map Reading.ordinary ∧
      Parallel (Abreast (.ofBytes bytes)) bytes (l.readAt (i + 1) entry).2
        (s.readAt (i + 1) entry).2 := by
  have hlenient := (h.lenient.readAt (Text.games_lenient _ ▸ hentry)).steady
  have hstrict := (h.strict.readAt hentry).steady
  have hreuse := h.reusable?_eq (i + 1) entry
  unfold Database.readAt at *
  cases hreusable : s.reusable? (i + 1) entry with
  -- Both modes have the same game at hand.
  | some g =>
    rw [hreusable] at hstrict hreuse
    rw [hreuse] at hlenient
    rw [hreuse]
    exact ⟨rfl, h.arriveAt hlenient hstrict⟩
  | none =>
    rw [hreusable] at hstrict hreuse
    rw [hreuse] at hlenient
    rw [hreuse]
    -- The problems of a game are told apart by their places, if these fit.
    have hapart : ∀ p ∈ (Game.read s.buffer true (i + 1) entry).problems,
        p.ToldApart (.ofBytes bytes) := by
      have hmem := List.mem_of_getElem? hentry
      rw [← h.strict.text_eq] at hmem ⊢
      exact fun p hp => Game.toldApart_of_read hmem hp
    obtain ⟨hanswer, hafter⟩ := h.reporter.reportAll h.strict.text_eq hapart
    dsimp only [Option.map_none] at hlenient hstrict ⊢
    -- The game read leniently is the strict one without its advice.
    rw [h.lenient.catalogued.strict_eq, h.buffer_eq, Game.read_ordinary,
      Game.problems_ordinary] at hlenient ⊢
    rw [h.strict.catalogued.strict_eq] at hstrict ⊢
    generalize Game.read s.buffer true (i + 1) entry = game at *
    change (l.reporter.reportAll s.buffer (ordinary game.problems)).1 =
      (s.reporter.reportAll s.buffer game.problems).1 at hanswer
    change Abreast _ (l.reporter.reportAll s.buffer (ordinary game.problems)).2
      (s.reporter.reportAll s.buffer game.problems).2 at hafter
    generalize l.reporter.reportAll s.buffer (ordinary game.problems) = result at *
    generalize s.reporter.reportAll s.buffer game.problems = result' at *
    obtain ⟨answer, r⟩ := result
    obtain ⟨answer', r'⟩ := result'
    obtain rfl : answer = answer' := hanswer
    cases answer with
    | some failure => exact ⟨rfl, h.withReporter hafter⟩
    | none => exact ⟨rfl, (h.withReporter hafter).arriveAt hlenient hstrict⟩

/-- A read goes the same way in both databases. -/
theorem Parallel.readGame (h : Parallel (Abreast (.ofBytes bytes)) bytes l s)
    (hn : n ≤ Catalogue.allGames) (modified : Nat) :
    (l.readGame (.ok ⟨bytes, modified⟩) n).1 =
        (s.readGame (.ok ⟨bytes, modified⟩) n).1.map (Option.map Reading.ordinary) ∧
      Parallel (Abreast (.ofBytes bytes)) bytes (l.readGame (.ok ⟨bytes, modified⟩) n).2
        (s.readGame (.ok ⟨bytes, modified⟩) n).2 := by
  obtain ⟨store, hl, hs, hseen⟩ := h.refresh modified
  unfold Database.readGame
  split
  · exact ⟨rfl, h⟩
  · -- Both databases take the same steps, since their catalogues and buffers are the same.
    rw [hl, hs]
    simp only
    obtain ⟨hanswer, hreached⟩ := hseen.indexTo (Catalogue.keeps_abreast _) hn
    generalize Database.indexTo { l with store } n = result at hanswer hreached ⊢
    generalize Database.indexTo { s with store } n = result' at hanswer hreached ⊢
    obtain ⟨answer, l'⟩ := result
    obtain ⟨answer', s'⟩ := result'
    obtain rfl : answer = answer' := hanswer
    replace hreached : Parallel (Abreast (.ofBytes bytes)) bytes l' s' := hreached
    cases answer with
    | error failure => exact ⟨rfl, hreached⟩
    | ok count =>
      simp only [hreached.catalogue_eq, hreached.buffer_eq]
      split
      · exact ⟨rfl, hreached⟩
      · split
        · exact ⟨rfl, hreached⟩
        · next entry hentry =>
          obtain ⟨i, rfl, hget, hgood⟩ := hreached.strict.entry_good hentry
          obtain ⟨hread, hafter⟩ := hreached.readAt hget
          simp only [hgood]
          generalize l'.readAt (i + 1) entry = result at hread hafter ⊢
          generalize s'.readAt (i + 1) entry = result' at hread hafter ⊢
          obtain ⟨answer, l''⟩ := result
          obtain ⟨answer', s''⟩ := result'
          obtain rfl : answer = answer'.map Reading.ordinary := hread
          cases answer' with
          | error failure => exact ⟨rfl, hafter⟩
          | ok reading => exact ⟨rfl, hafter⟩

/-! ## Checking -/

/-- A game is as valid without its advice, whoever listens. -/
theorem check_ordinary (g : Game) (depth : Depth) (r r' : Reporter) :
    (g.ordinary.check depth r).1 = (g.check depth r').1 := by
  cases depth <;>
    simp only [Game.check, Game.headerVerdict, Game.ordinary, Score.verdict, Score.ordinary,
      Verdict.ofProblems_ordinary]

/-- Checking a game that was handed out tells both reporters of its problems. -/
theorem Parallel.check (h : Parallel (Abreast (.ofBytes bytes)) bytes l s) {g : Game}
    (hg : g.IsOf (.ofBytes bytes) true) (depth : Depth) :
    (l.check g.ordinary depth).1 = (s.check g depth).1 ∧
      Parallel (Abreast (.ofBytes bytes)) bytes (l.check g.ordinary depth).2
        (s.check g depth).2 := by
  refine ⟨check_ordinary g depth _ _, h.withReporter ?_⟩
  cases depth with
  | simple => exact h.reporter
  | deep =>
    obtain ⟨key, i, entry, hentry, rfl⟩ := hg
    simp only [Game.problems_ordinary]
    exact h.reporter.mention rfl fun p hp => Game.toldApart_of_read (List.mem_of_getElem? hentry) hp

end Database

/-! ## Sessions -/

namespace Session

variable {bytes : ByteArray} {l s : Session}

/-- What two sessions on the same content have in common, the second of them strict. -/
structure Parallel (bytes : ByteArray) (l s : Session) : Prop where
  db : l.db.Parallel (Abreast (.ofBytes bytes)) bytes s.db
  held_eq : l.held = s.held.map Game.ordinary
  isOf : ∀ g ∈ s.held, g.IsOf (.ofBytes bytes) true

/-- Sessions stay parallel with databases that are. -/
theorem Parallel.withDb (h : Parallel bytes l s) {db db' : Database}
    (hdb : db.Parallel (Abreast (.ofBytes bytes)) bytes db') :
    Parallel bytes { l with db } { s with db := db' } :=
  ⟨hdb, h.held_eq, h.isOf⟩

/-- Both sessions keep the game that is handed out. -/
theorem Parallel.receive (h : Parallel bytes l s)
    {result result' : Except Failure (Option Reading) × Database}
    (hanswer : result.1 = result'.1.map (Option.map Reading.ordinary))
    (hdb : result.2.Parallel (Abreast (.ofBytes bytes)) bytes result'.2)
    (hisOf : ∀ reading, result'.1.toOption.join = some reading →
      reading.game.IsOf (.ofBytes bytes) true) :
    (l.receive result).1 = (s.receive result').1.ordinary ∧
      Parallel bytes (l.receive result).2 (s.receive result').2 := by
  obtain ⟨answer, db⟩ := result
  obtain ⟨answer', db'⟩ := result'
  obtain rfl : answer = answer'.map (Option.map Reading.ordinary) := hanswer
  -- The game that is received is held in both sessions, without its advice in one.
  refine ⟨rfl, hdb, ?_, fun g hg => ?_⟩
  · cases answer' with
    | error failure => simpa [Session.receive, Except.map, Except.toOption] using h.held_eq
    | ok reading? =>
      cases reading? with
      | none => simpa [Session.receive, Except.map, Except.toOption] using h.held_eq
      | some reading =>
        simpa [Session.receive, Except.map, Except.toOption, Reading.ordinary] using h.held_eq
  · rcases List.mem_append.1 hg with hold | hnew
    · exact h.isOf g hold
    · obtain ⟨reading, hreading, rfl⟩ := Option.map_eq_some_iff.1 (Option.mem_toList.1 hnew)
      exact hisOf reading hreading

/-- A game is read alike, and both sessions hold it afterwards. -/
theorem Parallel.read (h : Parallel bytes l s) {n : Nat} (hn : n ≤ Catalogue.allGames)
    (modified : Nat) :
    (l.receive (l.db.readGame (.ok ⟨bytes, modified⟩) n)).1 =
        (s.receive (s.db.readGame (.ok ⟨bytes, modified⟩) n)).1.ordinary ∧
      Parallel bytes (l.receive (l.db.readGame (.ok ⟨bytes, modified⟩) n)).2
        (s.receive (s.db.readGame (.ok ⟨bytes, modified⟩) n)).2 := by
  obtain ⟨hanswer, hdb⟩ := h.db.readGame hn modified
  exact h.receive hanswer hdb fun reading hreading =>
    ((h.db.strict.readGame hn modified).isOf reading hreading).1

/-- Whatever is asked for, both sessions answer alike. -/
theorem Parallel.operate (h : Parallel bytes l s) (operation : Operation) :
    (l.operate bytes operation).1 = (s.operate bytes operation).1.ordinary ∧
      Parallel bytes (l.operate bytes operation).2 (s.operate bytes operation).2 := by
  have hkeeps := Catalogue.keeps_abreast (.ofBytes bytes)
  cases operation with
  | index target =>
    obtain ⟨hanswer, hdb⟩ := h.db.indexTo hkeeps (Database.toNat_le_allGames target)
    exact ⟨congrArg Answer.count hanswer, h.withDb hdb⟩
  | count modified =>
    obtain ⟨hanswer, hdb⟩ := h.db.gameCount hkeeps modified
    exact ⟨congrArg Answer.count hanswer, h.withDb hdb⟩
  | read n modified => exact h.read (Database.toNat_le_allGames n) modified
  | next modified =>
    simp only [Session.operate, Database.readNext, h.db.cursor_eq]
    exact h.read (Nat.min_le_right ..) modified
  -- The games held are those received, so both sessions check the same one.
  | check held depth =>
    simp only [Session.operate, h.held_eq, List.getElem?_map]
    cases hheld : s.held[held]? with
    | none => exact ⟨rfl, h⟩
    | some g =>
      obtain ⟨hanswer, hdb⟩ := h.db.check (h.isOf g (List.mem_of_getElem? hheld)) depth
      have hkept := h.withDb hdb
      rw [h.held_eq] at hkept
      exact ⟨congrArg (Answer.check ∘ some) hanswer, hkept⟩

/-- All operations are answered alike. -/
theorem Parallel.operateAll (h : Parallel bytes l s) (operations : List Operation) :
    (l.operateAll bytes operations).1 =
        (s.operateAll bytes operations).1.map Answer.ordinary ∧
      Parallel bytes (l.operateAll bytes operations).2 (s.operateAll bytes operations).2 := by
  induction operations generalizing l s with
  | nil => exact ⟨rfl, h⟩
  | cons operation rest ih =>
    obtain ⟨hanswer, hafter⟩ := h.operate operation
    obtain ⟨hanswers, hend⟩ := ih hafter
    exact ⟨by simp only [Session.operateAll, hanswer, hanswers, List.map_cons], hend⟩

end Session

namespace Database

variable {bytes : ByteArray}

/-- A session that begins with this listener, before anything was handed out. -/
def attended (db : Database) (handler : Handler) : Session :=
  ⟨db.setHandler (some handler), []⟩

/-- Databases that were just opened, one of them strict, and to which nobody has listened yet. -/
theorem open_parallel (origin : Origin) (name : String) (bytes : ByteArray) (prefetch : UInt32) :
    ∃ l s, origin.open name bytes ⟨false, prefetch.toNat⟩ = .ok l ∧
      origin.open name bytes ⟨true, prefetch.toNat⟩ = .ok s ∧
      Parallel (fun l s => l = .empty ∧ s = .empty) bytes l s := by
  -- However a database is opened, the mode does not change what is in its store.
  obtain ⟨store, hopen, htext⟩ : ∃ store : Store,
      (∀ strict, origin.open name bytes ⟨strict, prefetch.toNat⟩ =
        openStore store ⟨strict, prefetch.toNat⟩) ∧
      store.current.buffer.text = .ofBytes bytes := by
    cases origin with
    | memory => exact ⟨_, fun _ => rfl, rfl⟩
    | file modified => exact ⟨_, fun _ => rfl, rfl⟩
  have hunread : Parallel (fun l s => l = .empty ∧ s = .empty) bytes
      (unread store ⟨false, prefetch.toNat⟩) (unread store ⟨true, prefetch.toNat⟩) :=
    ⟨.unread htext _, .unread htext _, rfl, rfl, rfl, rfl, ⟨[], .here _⟩, rfl, rfl⟩
  rw [hopen, hopen, openStore_eq, openStore_eq]
  split
  · exact ⟨_, _, rfl, rfl, hunread⟩
  · exact ⟨_, _, rfl, rfl,
      (hunread.indexTo (Catalogue.keeps_unheard _) (toNat_le_allGames prefetch)).2⟩

/-- Sessions that are opened for obliging handlers start out parallel. -/
theorem Parallel.attended {l s : Database}
    (h : Parallel (fun l s => l = .empty ∧ s = .empty) bytes l s) {handler handler' : Handler}
    (hobliging : handler.Obliging) (hobliging' : handler'.Obliging) :
    Session.Parallel bytes (l.attended handler) (s.attended handler') := by
  obtain ⟨hlenient, hstrict, hstore, hcatalogue, hcursor, hcurrent, hcomes, hl, hs⟩ := h
  refine ⟨⟨hlenient.withReporter _, hstrict.withReporter _, hstore, hcatalogue, hcursor, hcurrent,
    hcomes, ?_⟩, rfl, nofun⟩
  show Abreast _ (l.reporter.setHandler _) (s.reporter.setHandler _)
  rw [hl, hs]
  refine ⟨⟨⟨rfl, .empty _⟩, rfl, .empty _⟩, ⟨?_, ?_⟩, fun _ hmark => hmark, List.Sublist.refl _,
    fun _ _ _ _ hknows => hknows, fun _ => rfl⟩
  · rintro _ ⟨rfl⟩
    exact hobliging
  · rintro _ ⟨rfl⟩
    exact hobliging'

/-- Strict reading only adds reports. Whatever is asked for, two databases of the same content, one
of them strict, answer alike, apart from the advice that is kept with the games, and catalogue the
same games, if whoever listens always goes on. Of what the strict one passes on, the other one
passes on everything that is not advice, and nothing else if the places of the content can be told
apart. -/
theorem strict_only_adds (origin : Origin) (name : String) (bytes : ByteArray) (prefetch : UInt32)
    (handler handler' : Handler) (hobliging : handler.Obliging)
    (hobliging' : handler'.Obliging) :
    ∃ l s, origin.open name bytes ⟨false, prefetch.toNat⟩ = .ok l ∧
      origin.open name bytes ⟨true, prefetch.toNat⟩ = .ok s ∧
      ∀ operations : List Operation,
        let lenient := (l.attended handler).operateAll bytes operations
        let strict := (s.attended handler').operateAll bytes operations
        lenient.1 = strict.1.map Answer.ordinary ∧
          lenient.2.db.entries = strict.2.db.entries ∧
          (strict.2.db.reporter.delivered.toList.filter Report.isOrdinary).Sublist
            lenient.2.db.reporter.delivered.toList ∧
          ((Text.ofBytes bytes).LinesFit → lenient.2.db.reporter.delivered.toList =
            strict.2.db.reporter.delivered.toList.filter Report.isOrdinary) := by
  obtain ⟨l, s, hl, hs, hopened⟩ := open_parallel origin name bytes prefetch
  -- The handlers start on reporters that have heard nothing.
  refine ⟨l, s, hl, hs, fun operations => ?_⟩
  obtain ⟨hanswers, hend⟩ := (hopened.attended hobliging hobliging').operateAll operations
  exact ⟨hanswers, congrArg (·.entries.toList) hend.db.catalogue_eq, hend.db.reporter.sublist,
    hend.db.reporter.delivered⟩

/-- A tag pair with a tab in its value, and the movetext `Kx9 * e4`: a word that is no move, and
text behind the termination marker. -/
def advisedSample : ByteArray :=
  ⟨#[0x5b, 0x41, 0x20, 0x22, 0x09, 0x22, 0x5d, 0x0a, 0x4b, 0x78, 0x39, 0x20, 0x2a, 0x20, 0x65,
    0x34]⟩

/-- The strict session is told of three problems, the other one of the word that is no move. -/
theorem strict_only_adds_advice :
    let handler : Handler := ⟨fun _ _ => true⟩
    let operations : List Operation := [.read 1 0, .check 0 .deep, .next 0, .count 0]
    let t := Text.ofBytes advisedSample
    handler.Obliging ∧
      (t.games true).map (fun e => (Game.read ⟨0, t⟩ true 1 e).problems) =
        [[.fault .tabInTagValue ⟨4, 5⟩, .fault .badSan ⟨8, 11⟩,
          .tokensAfterTermination ⟨12, 13⟩ ⟨14, 16⟩]] ∧
      ∃ l s, Origin.memory.open "one.pgn" advisedSample ⟨false, 0⟩ = .ok l ∧
        Origin.memory.open "one.pgn" advisedSample ⟨true, 0⟩ = .ok s ∧
        let lenient := (l.attended handler).operateAll advisedSample operations
        let strict := (s.attended handler).operateAll advisedSample operations
        lenient.1 = strict.1.map Answer.ordinary ∧
          lenient.2.db.reporter.delivered.toList =
            strict.2.db.reporter.delivered.toList.filter Report.isOrdinary := by
  intro handler operations t
  have hobliging : handler.Obliging := fun _ _ => rfl
  obtain ⟨l, s, hl, hs, hsession⟩ :=
    strict_only_adds .memory "one.pgn" advisedSample 0 handler handler hobliging hobliging
  obtain ⟨hanswers, -, -, hdelivered⟩ := hsession operations
  exact ⟨hobliging, by decide +kernel, l, s, hl, hs, hanswers,
    hdelivered (.of_size_lt (by decide +kernel))⟩

end Database

end Scorebook
