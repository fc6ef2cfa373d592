import Scorebook.Proofs.Database.Sessions
import Scorebook.Proofs.Reporter.Obliging

/-!
# Access without a history

A database remembers a good deal: how far it is catalogued, which game was read last, what has been
reported to whom. None of it shows in what a read of game `n` comes to. While content in memory is
worked with and every handler says to go on, the outcome is always `Buffer.fresh`, which is computed
from the content alone.
-/

namespace Scorebook

/-- What reading game `n` comes to in a database in which nothing has happened yet and to which
nobody listens: the game with no critical problem in it, or the first such problem. -/
def Buffer.fresh (buffer : Buffer) (strict : Bool) : Nat → Except Failure (Option Game)
  | 0 => .ok none
  | i + 1 =>
    match (buffer.text.games strict)[i]? with
    | none => .ok none
    | some entry =>
      let game := Game.read buffer strict (i + 1) entry
      match game.problems.find? Problem.isCritical with
      | some problem => .error (.fatal problem)
      | none => .ok (some game)

/-- A game that is there is read, or its first critical problem stops the read. -/
theorem Buffer.fresh_of_game {buffer : Buffer} {strict : Bool} {i : Nat} {entry : Entry}
    (h : (buffer.text.games strict)[i]? = some entry) :
    buffer.fresh strict (i + 1) =
      ((Game.read buffer strict (i + 1) entry).problems.find? Problem.isCritical).elim
        (.ok (some (Game.read buffer strict (i + 1) entry))) fun problem =>
          .error (.fatal problem) := by
  simp only [fresh, h]
  split <;> next hfind => rw [hfind]; rfl

/-- A game that is given is what is read at its place. -/
theorem Buffer.game_of_fresh {buffer : Buffer} {strict : Bool} {n : Nat} {g : Game}
    (h : buffer.fresh strict n = .ok (some g)) :
    ∃ i entry, n = i + 1 ∧ (buffer.text.games strict)[i]? = some entry ∧
      g = Game.read buffer strict n entry := by
  -- A game without a number is not there.
  cases n with
  | zero => cases h
  | succ i =>
    cases hentry : (buffer.text.games strict)[i]? with
    | none =>
      simp only [fresh, hentry] at h
      cases h
    | some entry =>
      rw [fresh_of_game hentry] at h
      cases hfind : (Game.read buffer strict (i + 1) entry).problems.find? Problem.isCritical with
      | some problem =>
        rw [hfind] at h
        cases h
      | none =>
        rw [hfind] at h
        cases h
        exact ⟨i, entry, rfl, hentry, rfl⟩

namespace Database

/-- A request that installs no handler that would stop anything. -/
def Request.Obliging : Request → Prop
  | .listen (some h) => h.Obliging
  | _ => True

/-- What reading game `n` comes to, whether or not the game is handed out again. -/
def outcome (db : Database) (disk : Disk) (n : Nat) : Except Failure (Option Game) :=
  (db.readGame disk n).1.map (Option.map Reading.game)

/-! ## What a session keeps -/

/-- A session on content in memory in which every handler accepts every report. -/
structure Unhindered (db : Database) (name : String) (bytes : ByteArray) (strict : Bool) :
    Prop where
  catalogued : db.Catalogued (.ofBytes name bytes) strict
  obliging : db.reporter.Obliging
  /-- The game kept from the last read is the one its number would be read as. -/
  current : ∀ g, db.current = some g →
    Buffer.fresh ⟨0, .ofBytes bytes⟩ strict g.number = .ok (some g)

variable {db : Database} {name : String} {bytes : ByteArray} {strict : Bool}

/-- A database that was just opened in memory is unhindered. -/
theorem Unhindered.unread (name : String) (bytes : ByteArray) (options : Options) :
    (unread (.ofBytes name bytes) options).Unhindered name bytes options.strict :=
  ⟨.unread _ options, .empty, nofun⟩

/-- It looks at the bytes it was opened with. -/
theorem Unhindered.buffer_eq (h : db.Unhindered name bytes strict) :
    db.buffer = ⟨0, .ofBytes bytes⟩ := by
  rw [Database.buffer, h.catalogued.store_eq]
  rfl

/-- It may get any reporter that goes on. -/
theorem Unhindered.withReporter (h : db.Unhindered name bytes strict) {r : Reporter}
    (hr : r.Obliging) : { db with reporter := r }.Unhindered name bytes strict :=
  ⟨⟨h.catalogued.store_eq, h.catalogued.strict_eq, h.catalogued.tracks, h.catalogued.size_le⟩, hr,
    h.current⟩

/-- It stays unhindered when it arrives at a game that reading it afresh would give. -/
theorem Unhindered.arriveAt (h : db.Unhindered name bytes strict) {g : Game}
    (hg : Buffer.fresh ⟨0, .ofBytes bytes⟩ strict g.number = .ok (some g)) :
    (db.arriveAt g).Unhindered name bytes strict :=
  ⟨⟨h.catalogued.store_eq, h.catalogued.strict_eq, h.catalogued.tracks, h.catalogued.size_le⟩,
    h.obliging, fun _ hcurrent => Option.some.inj hcurrent ▸ hg⟩

/-- Content in memory is not looked at again. -/
theorem Unhindered.refresh (h : db.Unhindered name bytes strict) (disk : Disk) :
    db.refresh disk = (.ok (), db) := by
  have hstore : db.store.refresh disk = .ok db.store := by
    rw [h.catalogued.store_eq]
    rfl
  unfold Database.refresh
  rw [hstore]
  simp

/-- Every request for games is answered by how many there are now. -/
theorem Unhindered.indexTo (h : db.Unhindered name bytes strict) {target : Nat}
    (htarget : target ≤ Catalogue.allGames) :
    (db.indexTo target).1 = .ok (db.indexTo target).2.catalogue.entries.size ∧
      (db.indexTo target).2.Unhindered name bytes strict := by
  obtain ⟨hanswer, hafter⟩ :=
    Catalogue.ensure_of_obliging db.options.strict db.buffer target db.catalogue h.obliging
  exact ⟨hanswer, h.catalogued.indexTo htarget, hafter, h.current⟩

/-! ## One read -/

/-- A read at the place of a game comes to what a fresh read would. -/
theorem Unhindered.readAt (h : db.Unhindered name bytes strict) {i : Nat} {entry : Entry}
    (hentry : ((Text.ofBytes bytes).games strict)[i]? = some entry) :
    (db.readAt (i + 1) entry).1.map (some ·.game) =
        Buffer.fresh ⟨0, .ofBytes bytes⟩ strict (i + 1) ∧
      (db.readAt (i + 1) entry).2.Unhindered name bytes strict := by
  unfold Database.readAt
  split
  · -- The cached game was read from this text, as a fresh one would be.
    next g hreuse =>
    obtain ⟨hcurrent, hnumber, -⟩ := reusable?_eq_some hreuse
    have hfresh := h.current g hcurrent
    exact ⟨(hnumber ▸ hfresh).symm, h.arriveAt hfresh⟩
  · -- Otherwise the answer depends on the first critical problem of the game, if any.
    obtain ⟨hanswer, hafter⟩ := h.obliging.reportAll db.buffer
      (Game.read db.buffer db.options.strict (i + 1) entry).problems
    rw [h.buffer_eq, h.catalogued.strict_eq] at *
    generalize hgame : Game.read ⟨0, .ofBytes bytes⟩ strict (i + 1) entry = game at *
    have hnumber : game.number = i + 1 := by rw [← hgame]; rfl
    have hfresh : Buffer.fresh ⟨0, .ofBytes bytes⟩ strict (i + 1) =
        match game.problems.find? Problem.isCritical with
        | some problem => .error (.fatal problem)
        | none => .ok (some game) := by
      simp only [Buffer.fresh, hentry, hgame]
    dsimp only
    generalize db.reporter.reportAll ⟨0, .ofBytes bytes⟩ game.problems = result at *
    obtain ⟨failure, r⟩ := result
    simp only at hanswer hafter
    cases hcritical : game.problems.find? Problem.isCritical with
    | some problem =>
      rw [hcritical] at hanswer hfresh
      subst hanswer
      exact ⟨hfresh.symm, h.withReporter hafter⟩
    | none =>
      rw [hcritical] at hanswer hfresh
      subst hanswer
      exact ⟨hfresh.symm, (h.withReporter hafter).arriveAt (hnumber ▸ hfresh)⟩

/-- Whatever happened before, reading game `n` comes to what a fresh read would. -/
theorem Unhindered.readGame (h : db.Unhindered name bytes strict) (disk : Disk) {n : Nat}
    (hn : n ≤ Catalogue.allGames) :
    db.outcome disk n = Buffer.fresh ⟨0, .ofBytes bytes⟩ strict n ∧
      (db.readGame disk n).2.Unhindered name bytes strict := by
  cases n with
  | zero => exact ⟨rfl, h⟩
  | succ i =>
    obtain ⟨hanswer, hafter⟩ := h.indexTo hn
    have hcount := ((h.catalogued.ensured (i + 1)).of_ok _ hanswer).2
    unfold outcome Database.readGame
    rw [if_neg (Nat.succ_ne_zero i), h.refresh disk]
    simp only
    generalize db.indexTo (i + 1) = result at hanswer hafter hcount
    obtain ⟨answer, db'⟩ := result
    simp only at hanswer hafter hcount
    subst hanswer
    -- Either the text has too few games, or the entry is there and is not stale.
    by_cases hfew : db'.catalogue.entries.size < i + 1
    · have hlen : ((Text.ofBytes bytes).games strict).length ≤ i := by
        change _ = max _ (min _ ((Text.ofBytes bytes).games strict).length) at hcount
        omega
      have hnone := List.getElem?_eq_none hlen
      simp only [if_pos hfew, Buffer.fresh, hnone]
      exact ⟨rfl, hafter⟩
    · have hlt : i < db'.catalogue.entries.size := by omega
      have hget : db'.catalogue.entry? (i + 1) = some db'.catalogue.entries[i] :=
        Array.getElem?_eq_getElem hlt
      obtain ⟨_, hi, hentry⟩ := hafter.catalogued.tracks.getElem?_games hget
      obtain rfl := Nat.succ.inj hi
      have hplace : stale? (.ofBytes bytes) (i + 1) db'.catalogue.entries[i] = none :=
        stale?_eq_none (.of_mem_games (List.mem_of_getElem? hentry)) (i + 1)
      obtain ⟨houtcome, hsession⟩ := hafter.readAt hentry
      simp only [if_neg hfew, hget, hafter.buffer_eq, hplace]
      generalize db'.readAt (i + 1) _ = result at houtcome hsession
      obtain ⟨answer, db''⟩ := result
      cases answer with
      | error failure => exact ⟨houtcome, hsession⟩
      | ok reading => exact ⟨houtcome, hsession⟩

/-! ## Whole sessions -/

/-- Every obliging request leaves it unhindered. -/
theorem Unhindered.perform (h : db.Unhindered name bytes strict) {request : Request}
    (hrequest : request.Obliging) : (db.perform bytes request).Unhindered name bytes strict := by
  cases request with
  | index target => exact (h.indexTo (toNat_le_allGames target)).2
  | count modified =>
    show (db.gameCount _).2.Unhindered name bytes strict
    rw [Database.gameCount, h.refresh]
    exact (h.indexTo (Nat.le_refl _)).2
  | read n modified => exact (h.readGame _ (toNat_le_allGames n)).2
  | next modified => exact (h.readGame _ (Nat.min_le_right ..)).2
  -- A check or a new handler changes the reporter alone.
  | check g depth =>
    refine h.withReporter ?_
    cases depth with
    | simple => exact h.obliging
    | deep => exact h.obliging.mention g.buffer g.problems
  | listen handler =>
    refine h.withReporter ?_
    rintro heard rfl
    exact hrequest

/-- So do any number of them. -/
theorem Unhindered.performAll (h : db.Unhindered name bytes strict) {requests : List Request}
    (hrequests : ∀ request ∈ requests, request.Obliging) :
    (db.performAll bytes requests).Unhindered name bytes strict := by
  induction requests generalizing db with
  | nil => exact h
  | cons request requests ih =>
    exact ih (h.perform (hrequests request List.mem_cons_self))
      fun later hlater => hrequests later (List.mem_cons_of_mem request hlater)

/-- Opening bytes in memory succeeds, however many games are prefetched. -/
theorem ofBytes_unhindered (name : String) (bytes : ByteArray) (strict : Bool)
    (prefetch : UInt32) :
    ∃ db, ofBytes name bytes ⟨strict, prefetch.toNat⟩ = .ok db ∧
      db.Unhindered name bytes strict := by
  rw [ofBytes, openStore_eq]
  have hunread := Unhindered.unread name bytes ⟨strict, prefetch.toNat⟩
  split
  · exact ⟨_, rfl, hunread⟩
  · exact ⟨_, rfl, (hunread.indexTo (toNat_le_allGames prefetch)).2⟩

/-- A read does not depend on what happened before it. After any two sessions on the same content in
memory, if no handler ever stopped anything, game `n` is read with the same outcome: there is no
such game, or it is the same game, or it has the same critical problem. A game that is handed out
again is no exception, for the outcome is that of a read in a database without a history. -/
theorem read_regardless_of_history (name : String) (bytes : ByteArray) (strict : Bool)
    (prefetch : UInt32) (first second : List Request)
    (hfirst : ∀ request ∈ first, request.Obliging)
    (hsecond : ∀ request ∈ second, request.Obliging) :
    ∃ db, ofBytes name bytes ⟨strict, prefetch.toNat⟩ = .ok db ∧
      ∀ (n : UInt32) (disk disk' : Disk),
        (db.performAll bytes first).outcome disk n.toNat =
            (db.performAll bytes second).outcome disk' n.toNat ∧
          (db.performAll bytes first).outcome disk n.toNat =
            Buffer.fresh ⟨0, .ofBytes bytes⟩ strict n.toNat := by
  obtain ⟨db, hopen, hdb⟩ := ofBytes_unhindered name bytes strict prefetch
  refine ⟨db, hopen, ?_⟩
  intro n disk disk'
  have hn := toNat_le_allGames n
  obtain ⟨hone, -⟩ := (hdb.performAll hfirst).readGame disk hn
  obtain ⟨hother, -⟩ := (hdb.performAll hsecond).readGame disk' hn
  exact ⟨hone.trans hother.symm, hone⟩

/-- A text of two games: the only move of the first, `Kx9`, is in no notation, and a parenthesis of
the second is never closed. -/
def historySample : ByteArray :=
  ⟨#[0x5b, 0x41, 0x20, 0x22, 0x62, 0x22, 0x5d, 0x20, 0x4b, 0x78, 0x39, 0x20, 0x2a, 0x0a, 0x5b, 0x41,
    0x20, 0x22, 0x63, 0x22, 0x5d, 0x20, 0x65, 0x34, 0x20, 0x28]⟩

/-- Behind a session in which the move was reported, the second game failed and the first was handed
out again, the first game is read and the second fails. -/
theorem read_regardless_of_history_after_failure :
    let session : List Request :=
      [.listen (some ⟨fun _ _ => true⟩), .read 1 0, .read 2 0, .count 0, .next 0, .read 1 0]
    (∀ request ∈ session, request.Obliging) ∧
      ∃ db, ofBytes "two.pgn" historySample ⟨true, 0⟩ = .ok db ∧
        ((db.performAll historySample session).outcome (.error "") 1).toOption.join.map
            Game.number = some 1 ∧
          ((db.performAll historySample session).outcome (.error "") 2).toOption.isNone := by
  intro session
  have hsession : ∀ request ∈ session, request.Obliging := by
    simp [session, Request.Obliging, Handler.Obliging]
  obtain ⟨db, hopen, hread⟩ := read_regardless_of_history "two.pgn" historySample true 0 session []
    hsession (List.forall_mem_nil _)
  refine ⟨hsession, db, hopen, ?_, ?_⟩
  · rw [show (1 : Nat) = (1 : UInt32).toNat from rfl, (hread 1 _ (.error "")).2]
    decide +kernel
  · rw [show (2 : Nat) = (2 : UInt32).toNat from rfl, (hread 2 _ (.error "")).2]
    decide +kernel

end Database

end Scorebook
