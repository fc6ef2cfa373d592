import Scorebook.Proofs.Database.Reads
import Scorebook.Proofs.Database.Sessions
import Scorebook.Proofs.Movetext.Unfinished

/-!
# What becomes of the comments of an unfinished game

A game is handed out only if nothing critical was found in it, now or when it was read first, so all
of its movetext was read if there is no marker to end it. What is commented in the movetext is then
kept in the tree. The comments behind the last token are not part of the movetext, and there is no
other place that keeps them.
-/

namespace Scorebook.Database

variable {db : Database} {disk : Disk} {n : Nat}

/-! ## Games that were read -/

/-- There is nothing critical about the game read last. -/
def Readable (db : Database) : Prop :=
  ∀ g, db.current = some g → Recoverable g.problems

/-- Noticing a change of the file leaves the game read last. -/
theorem refresh_current (db : Database) (disk : Disk) :
    (db.refresh disk).2.current = db.current := by
  unfold refresh
  split <;> rfl

/-- That the game read last is readable is a matter of that game alone. -/
theorem Readable.of_current_eq {db' : Database} (h : db.Readable)
    (heq : db'.current = db.current) : db'.Readable :=
  fun g hg => h g (heq ▸ hg)

/-- Reading at a place leaves a readable game. -/
theorem Readable.readAt (h : db.Readable) (n : Nat) (entry : Entry) :
    (db.readAt n entry).2.Readable := by
  unfold Database.readAt
  split
  · next g hreuse =>
    intro g' hg'
    cases hg'
    exact h g (reusable?_eq_some hreuse).1
  · simp only
    split
    · exact h
    · next hreport =>
      intro g' hg'
      cases hg'
      exact Reporter.recoverable_of_reportAll (congrArg Prod.fst hreport)

/-- So does reading a game by its number. -/
theorem Readable.readGame (h : db.Readable) (disk : Disk) (n : Nat) :
    (db.readGame disk n).2.Readable :=
  readGame_keeps h (h.of_current_eq (db.refresh_current disk)) (fun _ h => h)
    (fun _ _ _ h _ _ => h) fun _ entry h _ _ => h.readAt n entry

/-- So does every request. -/
theorem Readable.perform (h : db.Readable) (bytes : ByteArray) (request : Request) :
    (db.perform bytes request).Readable := by
  cases request with
  | index | check | listen => exact h
  | count modified => exact gameCount_keeps (h.of_current_eq (db.refresh_current _)) fun _ h => h
  | read n modified => exact h.readGame _ n.toNat
  | next modified => exact h.readGame _ _

/-- So do any number of them. -/
theorem Readable.performAll (h : db.Readable) (bytes : ByteArray) (requests : List Request) :
    (db.performAll bytes requests).Readable := by
  induction requests generalizing db with
  | nil => exact h
  | cons request requests ih => exact ih (h.perform bytes request)

/-- A database is opened with no game read last. -/
theorem readable_of_open {origin : Origin} {name : String} {bytes : ByteArray} {options : Options}
    (h : origin.open name bytes options = .ok db) : db.Readable :=
  open_keeps h (fun _ _ => nofun) fun _ h => h

/-- A game that is handed out is the game read last. -/
theorem current_of_readAt {entry : Entry} {reading : Reading}
    (h : (db.readAt n entry).1 = .ok reading) :
    (db.readAt n entry).2.current = some reading.game := by
  unfold readAt at h ⊢
  split at h
  · cases h
    rfl
  · simp only at h ⊢
    split at h
    · cases h
    · cases h
      rfl

/-- A game that was handed out is the game read last. -/
theorem current_of_readGame {reading : Reading} {after : Database}
    (h : db.readGame disk n = (.ok (some reading), after)) : after.current = some reading.game := by
  have hcourse := db.readGame_course disk n
  rw [h] at hcourse
  generalize hresult : (Except.ok (some reading), after) = result at hcourse
  cases hcourse with
  | zero | unseen | unreached | absent | stale => cases hresult
  | @read seen reached count entry =>
    obtain ⟨hanswer, rfl⟩ := Prod.mk.inj hresult
    rcases hread : (reached.readAt n entry).1 with failure | reading'
    · rw [hread] at hanswer
      cases hanswer
    · rw [hread] at hanswer
      cases hanswer
      exact current_of_readAt hread

/-! ## The comments -/

/-- Of an unfinished game the tree keeps the comments that stand between its header and its last
token, or the end of the text if there is no token: joined by blanks where several belong to one
move, in order within each line, and each of them once. So all of the comments up to the next header
are kept exactly if those behind the last token have no text. -/
theorem comments_of_unfinished (origin : Origin) (name : String) (bytes : ByteArray)
    (strict : Bool) (prefetch : UInt32) :
    ∃ db, origin.open name bytes ⟨strict, prefetch.toNat⟩ = .ok db ∧
      ∀ (requests : List Request) (n : UInt32) (modified : Nat) (reading : Reading)
        (after : Database),
        (db.performAll bytes requests).readGame (.ok ⟨bytes, modified⟩) n.toNat =
            (.ok (some reading), after) →
        reading.game.score.marker = none →
          let t := Text.ofBytes bytes
          let entry := reading.game.entry
          let kept := reading.game.score.mainLine.remarks
          let behind := (t.gap entry.movetext.stop).comments.toList
          ∃ inside, t.bodiesFrom entry.tags.stop = inside ++ behind ∧
            Collects kept (t.remarks inside) ∧
            (Collects kept (t.remarks (t.bodiesFrom entry.tags.stop)) ↔
              t.remarks behind = []) := by
  obtain ⟨db, hopen, hsteady⟩ := open_steady origin name bytes strict prefetch
  refine ⟨db, hopen, ?_⟩
  intro requests n modified reading after hread hmarker t entry kept behind
  -- Only a game without critical problems is handed out, so its movetext was read to the end.
  have hreadable : after.Readable := by
    have := ((readable_of_open hopen).performAll bytes requests).readGame
      (.ok ⟨bytes, modified⟩) n.toNat
    rwa [hread] at this
  have hproblems := hreadable _ (current_of_readGame hread)
  have hreads := (hsteady.performAll requests).readGame (toNat_le_allGames n) modified
  rw [hread] at hreads
  obtain ⟨⟨key, i, e, he, hgame⟩, -⟩ := hreads.isOf reading rfl
  have hscore : reading.game.score = t.score strict e.movetext := congrArg Game.score hgame
  have hentry : entry = e := congrArg Game.entry hgame
  have hrecoverable : Recoverable (t.score strict e.movetext).problems := by
    rw [← hscore]
    exact fun p hp => hproblems p (List.mem_append_right _ hp)
  -- Of the comments in front of the movetext's end all are kept, so it depends on the others.
  obtain ⟨inside, hsplit, hcollects⟩ :=
    Text.collects_unfinished (List.mem_of_getElem? he) (hscore ▸ hmarker) hrecoverable
  rw [← hentry] at hsplit
  rw [← hscore] at hcollects
  refine ⟨inside, hsplit, hcollects, ?_⟩
  rw [hsplit, Text.remarks_append]
  exact hcollects.append_iff _

/-- A read of which something is known handed out a game. -/
theorem exists_reading_of_map {α : Type} {result : Except Failure (Option Reading) × Database}
    {f : Reading → α} {a : α} (h : result.1.toOption.join.map f = some a) :
    ∃ reading after, result = (.ok (some reading), after) ∧ f reading = a := by
  rcases result with ⟨_ | _ | reading, after⟩
  · cases h
  · cases h
  · exact ⟨reading, after, rfl, Option.some.inj h⟩

/-- What of a game tells where its comments went. -/
def commentary (reading : Reading) : Option Outcome × List (List String) × Nat × Nat :=
  (reading.game.score.marker.map Prod.fst, reading.game.score.mainLine.remarks,
    reading.game.entry.tags.stop, reading.game.entry.movetext.stop)

/-- An unfinished game with comments in front of the first move, behind moves, in a variation, on a
line of their own and, without any text, behind the last token. -/
def commentedUnfinished : ByteArray :=
  ⟨#[0x5b, 0x41, 0x20, 0x22, 0x62, 0x22, 0x5d, 0x0a, 0x7b, 0x61, 0x7d, 0x20, 0x65, 0x34, 0x20, 0x7b,
    0x62, 0x7d, 0x20, 0x28, 0x64, 0x34, 0x20, 0x7b, 0x63, 0x7d, 0x29, 0x20, 0x3b, 0x20, 0x64, 0x0a,
    0x7b, 0x65, 0x7d, 0x20, 0x65, 0x35, 0x20, 0x7b, 0x20, 0x7d]⟩

/-- All comments with some text are kept, in a session that read the game before. -/
theorem comments_of_unfinished_all_kept :
    let session : List Request := [.count 0, .next 0]
    ∃ db reading after,
      Origin.memory.open "db.pgn" commentedUnfinished ⟨false, 0⟩ = .ok db ∧
      (db.performAll commentedUnfinished session).readGame (.ok ⟨commentedUnfinished, 0⟩) 1 =
        (.ok (some reading), after) ∧
      reading.game.score.marker = none ∧
      reading.game.score.mainLine.remarks = [["a", "b d e"], ["c"]] ∧
      Collects reading.game.score.mainLine.remarks ["a", "b", "c", "d", "e"] := by
  intro session
  obtain ⟨db, hopen, hkeeps⟩ :=
    comments_of_unfinished .memory "db.pgn" commentedUnfinished false 0
  obtain rfl : unread (.ofBytes "db.pgn" commentedUnfinished) ⟨false, 0⟩ = db :=
    Except.ok.inj hopen
  obtain ⟨reading, after, hread, hcommentary⟩ := exists_reading_of_map
    (show (((unread (.ofBytes "db.pgn" commentedUnfinished) ⟨false, 0⟩).performAll
        commentedUnfinished session).readGame (.ok ⟨commentedUnfinished, 0⟩)
          1).1.toOption.join.map commentary = some (none, [["a", "b d e"], ["c"]], 7, 38) by
      decide +kernel)
  simp only [commentary, Prod.mk.injEq, Option.map_eq_none_iff] at hcommentary
  obtain ⟨hmarker, hkept, htags, hstop⟩ := hcommentary
  obtain ⟨inside, -, -, hall⟩ := hkeeps session 1 0 reading after hread hmarker
  rw [htags, hstop] at hall
  have htexts : (Text.ofBytes commentedUnfinished).remarks
      ((Text.ofBytes commentedUnfinished).bodiesFrom 7) = ["a", "b", "c", "d", "e"] := by
    decide +kernel
  refine ⟨_, reading, after, hopen, hread, hmarker, hkept, ?_⟩
  exact htexts ▸ hall.2 (by decide +kernel)

/-- An unfinished game with a comment behind its last token. -/
def commentedBehind : ByteArray :=
  ⟨#[0x5b, 0x41, 0x20, 0x22, 0x62, 0x22, 0x5d, 0x0a, 0x65, 0x34, 0x20, 0x7b, 0x6c, 0x6f, 0x73, 0x74,
    0x7d]⟩

/-- The comment behind the last token is kept nowhere in the tree. -/
theorem comment_lost_behind_last_token :
    ∃ db reading after,
      Origin.memory.open "db.pgn" commentedBehind ⟨false, 0⟩ = .ok db ∧
      db.readGame (.ok ⟨commentedBehind, 0⟩) 1 = (.ok (some reading), after) ∧
      reading.game.score.marker = none ∧
      (Text.ofBytes commentedBehind).remarks
        ((Text.ofBytes commentedBehind).bodiesFrom reading.game.entry.tags.stop) = ["lost"] ∧
      reading.game.score.mainLine.remarks = [[]] := by
  obtain ⟨reading, after, hread, hcommentary⟩ := exists_reading_of_map
    (show ((unread (.ofBytes "db.pgn" commentedBehind) ⟨false, 0⟩).readGame
        (.ok ⟨commentedBehind, 0⟩) 1).1.toOption.join.map commentary =
          some (none, [[]], 7, 10) by
      decide +kernel)
  simp only [commentary, Prod.mk.injEq, Option.map_eq_none_iff] at hcommentary
  obtain ⟨hmarker, hkept, htags, -⟩ := hcommentary
  refine ⟨_, reading, after, rfl, hread, hmarker, ?_, hkept⟩
  rw [htags]
  decide +kernel

end Scorebook.Database
