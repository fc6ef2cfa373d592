import Scorebook.Proofs.Database.Staleness
import Scorebook.Proofs.Game.Headers
import Scorebook.Proofs.Reporter.Hearing
import Scorebook.Proofs.Reporter.Obliging

/-!
# Header problems are heard once

A game joins the catalogue only once all its reports were accepted, so whoever listens from the
beginning knows what is wrong with the header of every catalogued game. While the content stays the
same, reading such a game has nothing to add to that, as long as it finds the problems of the header
where they were found before: what it passes on, and what it fails with, is wrong with the movetext.
-/

namespace Scorebook

open Reporter (Attends Knows Passed)

/-! ## Catalogues -/

namespace Catalogue

/-- The reporter knows the header problems of all catalogued games. -/
def KnownTo (c : Catalogue) (t : Text) (strict : Bool) (r : Reporter) : Prop :=
  ∀ e ∈ c.entries, ∀ p ∈ (t.header strict e.tags.start).problems, r.Knows t p

variable {c : Catalogue} {t : Text} {strict : Bool} {buffer : Buffer} {r r' : Reporter}

/-- What one reporter knows is known to any that has seen as much. -/
theorem KnownTo.mono (h : c.KnownTo t strict r) (hseen : ∀ mark ∈ r.seen, mark ∈ r'.seen) :
    c.KnownTo t strict r' :=
  fun e he p hp => hseen _ (h e he p hp)

/-- A catalogue stays known when it takes in a game whose problems are. -/
theorem KnownTo.add {entry : Entry} {next pos : Nat} {problems : List Problem}
    (h : c.KnownTo t strict r) (hitem : t.nextItem strict pos = (.game entry next, problems))
    (hknows : ∀ p ∈ problems, r.Knows t p) : (c.add entry next).KnownTo t strict r := by
  intro e he p hp
  rcases Array.mem_push.1 he with hold | rfl
  · exact h e hold p hp
  · -- What the scan reported on its way to the game and in it includes the problems of the header.
    obtain ⟨hstart, hfound⟩ := Text.found_of_nextItem hitem
    have hproblems : (t.gap pos).problem?.toList ++ (t.itemAt strict (t.gap pos).stop).2 =
        problems := congrArg Prod.snd hitem
    rw [← hstart, Text.itemAt_of_openBracket strict hfound.opening] at hproblems
    refine hknows p ?_
    rw [← hproblems]
    exact List.mem_append_right _ (List.mem_append_left _ hp)

/-- What a scan finds is known to whoever listens. -/
theorem KnownTo.extendFrom (h : c.KnownTo buffer.text strict r) (hr : r.Attends buffer.text)
    (target pos : Nat) :
    (extendFrom strict buffer target pos c r).2.1.KnownTo buffer.text strict
        (extendFrom strict buffer target pos c r).2.2 ∧
      (extendFrom strict buffer target pos c r).2.2.Attends buffer.text := by
  have hreports {r : Reporter} (hr : r.Attends buffer.text) (problems : List Problem) :=
    Reporter.reportAll_passed hr rfl problems
  -- By the recursion of the catalogue. It stops at the end, at a failure or at the target.
  fun_induction Catalogue.extendFrom strict buffer target pos c r with
  | case1 pos c r hlt problems hitem failure r' hreport
  | case2 pos c r hlt problems hitem r' hreport
  | case3 pos c r hlt next problems hitem failure r' hreport
  | case5 pos c r hlt entry next problems hitem failure r' hreport =>
    have hpassed := (hreports hr problems).1
    rw [hreport] at hpassed
    exact ⟨h.mono hpassed.seen, hpassed.attends⟩
  -- Material in front of the first game is reported and leaves no entry.
  | case4 pos c r hlt next problems hitem r' hreport ih =>
    have hpassed := (hreports hr problems).1
    rw [hreport] at hpassed
    exact ih (h.mono hpassed.seen) hpassed.attends
  -- The entry that is added has just been reported, so its problems are known.
  | case6 pos c r hlt entry next problems hitem r' hreport ih =>
    obtain ⟨hpassed, hknows⟩ := hreports hr problems
    rw [hreport] at hpassed hknows
    exact ih ((h.mono hpassed.seen).add hitem (hknows rfl)) hpassed.attends
  | case7 => exact ⟨h, hr⟩

/-- After a request all problems of the catalogued games are known. -/
theorem KnownTo.ensure (h : c.KnownTo t strict r) (hbuffer : buffer.text = t) (hr : r.Attends t)
    (target : Nat) :
    (c.ensure strict buffer target r).2.1.KnownTo t strict (c.ensure strict buffer target r).2.2 ∧
      (c.ensure strict buffer target r).2.2.Attends t := by
  subst hbuffer
  by_cases hdone : c.complete = true ∨ target ≤ c.entries.size
  · rw [ensure_of_done hdone]
    exact ⟨h, hr⟩
  · have hscan := h.extendFrom hr target (scanStart buffer.text c.resume)
    rw [ensure_of_open hdone]
    exact hscan

end Catalogue

/-! ## Problems that are found again -/

/-- Problems known by the same are the same to a reporter. -/
theorem Problem.mark_congr {p q : Problem} (h : p.identity = q.identity) (t : Text) :
    p.mark t = q.mark t := by
  obtain ⟨hverdict, hstart⟩ := Prod.mk.inj h
  simp only [mark, hverdict, place]
  cases hp : p.span? with
  | none =>
    rw [hp, Option.map_none, eq_comm, Option.map_eq_none_iff] at hstart
    rw [hstart]
  | some span =>
    rw [hp, Option.map_some, eq_comm, Option.map_eq_some_iff] at hstart
    obtain ⟨span', hq, hsame⟩ := hstart
    rw [hq]
    simp only [hsame]

/-- Whoever knows what a catalogued header was found to have knows what it is read to have, if that
can be found in front of the movetext. -/
theorem Catalogue.KnownTo.read {c : Catalogue} {t : Text} {strict : Bool} {r : Reporter}
    {buffer : Buffer} {e : Entry} (h : c.KnownTo t strict r) (hbuffer : buffer.text = t)
    (hmem : e ∈ c.entries) (hgame : e ∈ t.games strict) (hshow : e.ShowsProblems t strict)
    (n : Nat) : ∀ p ∈ (Game.read buffer strict n e).headerProblems, r.Knows t p := by
  subst hbuffer
  intro p hp
  have hfound := List.mem_map_of_mem (f := Problem.identity) hp
  rw [Game.headerProblems_read hgame hshow n] at hfound
  obtain ⟨q, hq, hsame⟩ := List.mem_map.1 hfound
  have hknown := h e hmem q (by
    rw [(Text.header_problems_eq hgame).1]
    exact List.mem_append_left _ hq)
  rw [Knows, ← Problem.mark_congr hsame]
  exact hknown

/-! ## Sessions -/

/-- A game of a text was read from it. -/
theorem Game.IsOf.text_eq {g : Game} {t : Text} {strict : Bool} (h : g.IsOf t strict) :
    g.buffer.text = t := by
  obtain ⟨key, i, entry, -, rfl⟩ := h
  rfl

namespace Database

/-- The request keeps a listener in place, and if a game is checked it is one of this content. -/
def Request.Attended (bytes : ByteArray) (strict : Bool) : Request → Prop
  | .listen handler => handler.isSome = true
  | .check g _ => g.IsOf (.ofBytes bytes) strict
  | .index _ | .count _ | .read .. | .next _ => True

/-- What a session keeps while the content stays the same and somebody listens. -/
structure Attentive (db : Database) (bytes : ByteArray) (strict : Bool) : Prop where
  steady : db.Steady bytes strict
  attends : db.reporter.Attends (.ofBytes bytes)
  known : db.catalogue.KnownTo (.ofBytes bytes) strict db.reporter

variable {db : Database} {bytes : ByteArray} {strict : Bool} {n : Nat} {entry : Entry}

/-- A database stays attentive when problems of its text are passed on. -/
theorem Attentive.of_passed {after : Database} {problems : List Problem}
    (h : db.Attentive bytes strict) (hsteady : after.Steady bytes strict)
    (hcatalogue : after.catalogue = db.catalogue)
    (hpassed : Passed (.ofBytes bytes) problems db.reporter after.reporter) :
    after.Attentive bytes strict :=
  ⟨hsteady, hpassed.attends, hcatalogue ▸ h.known.mono hpassed.seen⟩

/-- A request for games leaves the database attentive. -/
theorem Attentive.indexTo (h : db.Attentive bytes strict) {target : Nat}
    (htarget : target ≤ Catalogue.allGames) : (db.indexTo target).2.Attentive bytes strict := by
  obtain rfl := h.steady.catalogued.strict_eq
  obtain ⟨hknown, hattends⟩ := h.known.ensure h.steady.text_eq h.attends target
  exact ⟨h.steady.indexTo htarget, hattends, hknown⟩

/-- A look at the unchanged file leaves the database attentive. -/
theorem Attentive.refresh (h : db.Attentive bytes strict) (modified : Nat) :
    ∃ store, db.refresh (.ok ⟨bytes, modified⟩) = (.ok (), { db with store }) ∧
      { db with store }.Attentive bytes strict := by
  obtain ⟨store, hrefresh, hsteady⟩ := h.steady.refresh modified
  exact ⟨store, hrefresh, hsteady, h.attends, h.known⟩

/-- Reading at a place passes on problems of the game only. -/
theorem readAt_passed {t : Text} (hr : db.reporter.Attends t) (hbuffer : db.buffer.text = t)
    (n : Nat) (entry : Entry) :
    Passed t (Game.read db.buffer db.options.strict n entry).problems db.reporter
      (db.readAt n entry).2.reporter := by
  have hpassed := (Reporter.reportAll_passed hr hbuffer
    (Game.read db.buffer db.options.strict n entry).problems).1
  unfold readAt
  split
  · exact .refl hr _
  · simp only
    split <;> next hreport =>
      rw [hreport] at hpassed
      exact hpassed

/-- Reading a game leaves the database attentive. -/
theorem Attentive.readGame (h : db.Attentive bytes strict) (hn : n ≤ Catalogue.allGames)
    (modified : Nat) : (db.readGame (.ok ⟨bytes, modified⟩) n).2.Attentive bytes strict := by
  obtain ⟨store, hrefresh, hstored⟩ := h.refresh modified
  refine readGame_keeps (P := (Attentive · bytes strict)) h
    (by rw [hrefresh]; exact hstored) (fun _ h => h.indexTo hn) ?_ ?_
  · intro db entry problem h hentry hstale
    obtain ⟨_, -, -, hgood⟩ := h.steady.entry_good hentry
    rw [hgood] at hstale
    cases hstale
  · intro db entry h hentry _
    obtain ⟨i, rfl, hget, -⟩ := h.steady.entry_good hentry
    obtain ⟨_, _, _, hafter⟩ := db.readAt_frame (i + 1) entry
    refine h.of_passed (h.steady.readAt hget).steady ?_
      (readAt_passed h.attends h.steady.text_eq (i + 1) entry)
    rw [hafter]

/-- Every request that is attended leaves the database attentive. -/
theorem Attentive.perform (h : db.Attentive bytes strict) {request : Request}
    (hrequest : request.Attended bytes strict) :
    (db.perform bytes request).Attentive bytes strict := by
  have hsteady := h.steady.perform request
  cases request with
  | index target => exact h.indexTo (toNat_le_allGames target)
  | count modified =>
    obtain ⟨store, hrefresh, hstored⟩ := h.refresh modified
    simp only [Database.perform, gameCount, hrefresh]
    exact hstored.indexTo (Nat.le_refl _)
  | read n modified => exact h.readGame (toNat_le_allGames n) modified
  | next modified => exact h.readGame (Nat.min_le_right ..) modified
  | check g depth =>
    cases depth with
    | simple => exact h.of_passed hsteady rfl (.refl h.attends [])
    | deep =>
      exact h.of_passed hsteady rfl
        (Reporter.mention_passed h.attends (Game.IsOf.text_eq hrequest) g.problems)
  | listen handler => exact ⟨hsteady, ⟨hrequest, h.attends.lines⟩, h.known⟩

/-- So do any number of them. -/
theorem Attentive.performAll (h : db.Attentive bytes strict) {requests : List Request}
    (hrequests : ∀ request ∈ requests, request.Attended bytes strict) :
    (db.performAll bytes requests).Attentive bytes strict := by
  induction requests generalizing db with
  | nil => exact h
  | cons request requests ih =>
    exact ih (h.perform (hrequests request List.mem_cons_self))
      fun later hlater => hrequests later (List.mem_cons_of_mem request hlater)

/-- Whoever listens before anything was catalogued knows all there is to know. -/
theorem Attentive.unread {store : Store} (htext : store.current.buffer.text = .ofBytes bytes)
    (options : Options) (handler : Handler) :
    ((unread store options).setHandler (some handler)).Attentive bytes options.strict :=
  ⟨(Steady.unread htext options).withReporter _, ⟨rfl, .empty _⟩,
    fun e he => absurd he (Array.not_mem_empty e)⟩

/-- A request to which nobody objects catalogues the game it asks for. -/
theorem Steady.entry?_indexTo (h : db.Steady bytes strict) (hyielding : db.reporter.Yielding)
    {i : Nat} (hget : ((Text.ofBytes bytes).games strict)[i]? = some entry) :
    (db.indexTo (i + 1)).2.catalogue.entry? (i + 1) = some entry := by
  have hensured := h.catalogued.ensured (i + 1)
  rw [h.text_eq] at hensured
  have hanswer := (Catalogue.ensure_of_yielding db.options.strict db.buffer (i + 1) db.catalogue
    hyielding).1
  have hsize : (db.indexTo (i + 1)).2.catalogue.entries.size =
      max db.catalogue.entries.size (min (i + 1) ((Text.ofBytes bytes).games strict).length) :=
    (hensured.of_ok _ hanswer).2
  have htracks : (db.indexTo (i + 1)).2.catalogue.entries.toList =
      ((Text.ofBytes bytes).games strict).take (db.indexTo (i + 1)).2.catalogue.entries.size :=
    hensured.tracks.entries_eq
  have hlt := (List.getElem?_eq_some_iff.1 hget).1
  show (db.indexTo (i + 1)).2.catalogue.entries[i]? = some entry
  rw [← Array.getElem?_toList, htracks, List.getElem?_take_of_lt (by omega), hget]

/-! ## Reading a catalogued game -/

/-- Reading the game passes on nothing but these problems, and hands the game out unless one of them
stops it. -/
structure SpeaksOf (db : Database) (disk : Disk) (n : Nat) (problems : List Problem) : Prop where
  delivered : ∃ reports : List Report,
    (db.readGame disk n).2.reporter.delivered.toList = db.reporter.delivered.toList ++ reports ∧
      ∀ report ∈ reports, report.problem ∈ problems
  answer : match (db.readGame disk n).1 with
    | .ok reading? => ∃ reading, reading? = some reading ∧ reading.game.number = n
    | .error failure => ∃ problem ∈ problems, failure.problem? = some problem

/-- Reading at a place does not speak of the header if all of it is known. -/
theorem readAt_of_known {t : Text} (hr : db.reporter.Attends t) (hbuffer : db.buffer.text = t)
    (hknown : ∀ p ∈ (Game.read db.buffer db.options.strict n entry).headerProblems,
      db.reporter.Knows t p) :
    (∃ reports : List Report,
      (db.readAt n entry).2.reporter.delivered.toList = db.reporter.delivered.toList ++ reports ∧
        ∀ report ∈ reports, report.problem ∈
          (Game.read db.buffer db.options.strict n entry).score.problems) ∧
      match (db.readAt n entry).1 with
      | .ok reading => reading.game.number = n
      | .error failure =>
        ∃ problem ∈ (Game.read db.buffer db.options.strict n entry).score.problems,
          failure.problem? = some problem := by
  unfold readAt
  split
  · -- The game handed out last is not read again, and nothing is reported.
    next g hreuse => exact ⟨⟨[], (List.append_nil _).symm, nofun⟩, (reusable?_eq_some hreuse).2.1⟩
  · simp only
    generalize hgame : Game.read db.buffer db.options.strict n entry = game at hknown ⊢
    have hnumber : game.number = n := hgame ▸ rfl
    -- The header is known and reports nothing, so what is told is of the movetext.
    have hrecoverable : Recoverable game.headerProblems :=
      hgame ▸ Text.recoverable_headerFrom .nil
    obtain ⟨r, hattends, hdelivered, hrest⟩ :=
      Reporter.reportAll_of_known hr hbuffer hrecoverable hknown
    have hpassed := (Reporter.reportAll_passed hattends hbuffer game.score.problems).1.delivered
    rw [Game.problems, hrest]
    rw [hdelivered] at hpassed
    rcases hreport : r.reportAll db.buffer game.score.problems with ⟨answer, r'⟩
    rw [hreport] at hpassed
    cases answer with
    | some failure =>
      exact ⟨hpassed, Reporter.exists_mem_of_reportAll (congrArg Prod.fst hreport)⟩
    | none => exact ⟨hpassed, hnumber⟩

/-- A listener who knows the header of a game hears of its score only. -/
theorem Attentive.speaksOf (h : db.Attentive bytes strict)
    (hentry : db.catalogue.entry? n = some entry)
    (hshow : entry.ShowsProblems (.ofBytes bytes) strict) (modified : Nat) :
    db.SpeaksOf (.ok ⟨bytes, modified⟩) n
      ((Text.ofBytes bytes).score strict entry.movetext).problems := by
  obtain ⟨store, hrefresh, hstored⟩ := h.refresh modified
  -- The entry is one of the games of this text, so it is not found stale.
  obtain ⟨i, rfl, hget, hgood⟩ := hstored.steady.entry_good hentry
  have htext : store.current.buffer.text = .ofBytes bytes := hstored.steady.text_eq
  have hstrict : db.options.strict = strict := hstored.steady.catalogued.strict_eq
  have hknown := h.known.read htext (Array.mem_of_getElem? hentry) (List.mem_of_getElem? hget)
    hshow (i + 1)
  rw [← hstrict] at hknown
  obtain ⟨hdelivered, hgiven⟩ := readAt_of_known hstored.attends htext hknown
  have hscore : (Game.read store.current.buffer db.options.strict (i + 1) entry).score.problems =
      ((Text.ofBytes bytes).score strict entry.movetext).problems := by
    rw [hstrict, ← htext]
    rfl
  rw [show Database.buffer { db with store } = store.current.buffer from rfl, hscore]
    at hdelivered hgiven
  have hanswer := readGame_of_good hrefresh hentry hgood
  refine ⟨hanswer ▸ hdelivered, ?_⟩
  rw [hanswer]
  rcases hresult : (Database.readAt { db with store } (i + 1) entry).1 with failure | reading
  · rw [hresult] at hgiven
    exact hgiven
  · rw [hresult] at hgiven
    exact ⟨reading, rfl, hgiven⟩

/-! ## The statement -/

/-- Reading has nothing to add about a header whose problems can all be found in front of the
movetext: its scan comes upon problems of the same verdicts at the same offsets as cataloguing did.
So whatever was asked of a database while somebody listened, and whatever they answered, reading a
catalogued game with such a header passes on problems of its score only, and only they can stop
it. -/
theorem headers_heard_once (origin : Origin) (name : String) (bytes : ByteArray) (strict : Bool)
    (handler : Handler) :
    (∀ e ∈ (Text.ofBytes bytes).games strict,
      ((Text.ofBytes bytes).header strict e.tags.start).problems =
          (Text.ofBytes bytes).pairProblems strict e ++
            ((Text.ofBytes bytes).gap e.tags.stop).problem?.toList ∧
        (e.ShowsProblems (.ofBytes bytes) strict → ∀ key n,
          (Game.read ⟨key, .ofBytes bytes⟩ strict n e).headerProblems.map Problem.identity =
            ((Text.ofBytes bytes).pairProblems strict e).map Problem.identity)) ∧
    ∃ db, origin.open name bytes ⟨strict, 0⟩ = .ok db ∧
      ∀ requests : List Request, (∀ request ∈ requests, request.Attended bytes strict) →
        ∀ n e, ((db.setHandler (some handler)).performAll bytes requests).catalogue.entry? n =
            some e →
          e.ShowsProblems (.ofBytes bytes) strict →
          ∀ modified, ((db.setHandler (some handler)).performAll bytes requests).SpeaksOf
            (.ok ⟨bytes, modified⟩) n ((Text.ofBytes bytes).score strict e.movetext).problems := by
  refine ⟨fun e he => ⟨(Text.header_problems_eq he).1, fun hshow key n => ?_⟩, ?_⟩
  · exact Game.headerProblems_read he hshow n
  obtain ⟨store, hopen, htext⟩ : ∃ store : Store,
      origin.open name bytes ⟨strict, 0⟩ = .ok (unread store ⟨strict, 0⟩) ∧
        store.current.buffer.text = .ofBytes bytes := by
    -- Both ways of opening leave the same database, but for the key.
    cases origin with
    | memory => exact ⟨_, rfl, rfl⟩
    | file modified => exact ⟨_, rfl, rfl⟩
  refine ⟨unread store ⟨strict, 0⟩, hopen, fun requests hrequests n e hentry hshow modified => ?_⟩
  have hattentive := (Attentive.unread htext ⟨strict, 0⟩ handler).performAll hrequests
  exact hattentive.speaksOf hentry hshow modified

/-- A game whose second pair, `[C "d"`, has no closing bracket. -/
def unclosed : ByteArray :=
  ⟨#[0x5b, 0x41, 0x20, 0x22, 0x62, 0x22, 0x5d, 0x0a, 0x5b, 0x43, 0x20, 0x22, 0x64, 0x22, 0x0a, 0x65,
    0x34, 0x20, 0x2a]⟩

/-- The pair that was catalogued as unclosed is read as unclosed, and nobody hears of it again. -/
theorem headers_heard_once_of_unclosed :
    ∃ e, (Text.ofBytes unclosed).games false = [e] ∧
      (Game.read ⟨0, .ofBytes unclosed⟩ false 1 e).headerProblems.map Problem.identity =
        [(.illegalToken, some 8)] ∧
      ∃ db, Origin.memory.open "db.pgn" unclosed ⟨false, 0⟩ = .ok db ∧
        ((db.setHandler (some ⟨fun _ _ => true⟩)).indexTo 1).2.SpeaksOf (.ok ⟨unclosed, 0⟩) 1
          ((Text.ofBytes unclosed).score false e.movetext).problems := by
  have hgames : (Text.ofBytes unclosed).games false =
      [⟨1, ⟨0, 14⟩, ⟨15, 19⟩, (Text.ofBytes unclosed).checksum ⟨0, 14⟩, .illegalToken⟩] := by
    decide +kernel
  generalize hentry : (⟨1, ⟨0, 14⟩, ⟨15, 19⟩, (Text.ofBytes unclosed).checksum ⟨0, 14⟩,
    .illegalToken⟩ : Entry) = e at hgames
  have hshow : e.ShowsProblems (.ofBytes unclosed) false := by
    subst hentry
    decide +kernel
  have hfound : ((Text.ofBytes unclosed).pairProblems false e).map Problem.identity =
      [(.illegalToken, some 8)] := by
    subst hentry
    decide +kernel
  obtain ⟨hheaders, db, hopen, hreads⟩ :=
    headers_heard_once .memory "db.pgn" unclosed false ⟨fun _ _ => true⟩
  refine ⟨e, hgames, ?_, db, hopen, ?_⟩
  · rw [(hheaders e (hgames ▸ List.mem_singleton_self e)).2 hshow 0 1, hfound]
  · refine hreads [.index 1] ?_ 1 e ?_ hshow 0
    · intro request hrequest
      rw [List.mem_singleton.1 hrequest]
      trivial
    · cases hopen
      have hsteady : ((unread (.ofBytes "db.pgn" unclosed) ⟨false, 0⟩).setHandler
          (some ⟨fun _ _ => true⟩)).Steady unclosed false :=
        (Steady.unread rfl ⟨false, 0⟩).withReporter _
      refine hsteady.entry?_indexTo ?_ (congrArg (·[0]?) hgames)
      intro handler hhandler _ _ _
      cases hhandler
      rfl

/-- A game whose pair, `[Event`, has no value, with a comment behind it. -/
def commented : ByteArray :=
  ⟨#[0x5b, 0x45, 0x76, 0x65, 0x6e, 0x74, 0x0a, 0x7b, 0x63, 0x7d, 0x20, 0x31, 0x2e, 0x20, 0x65, 0x34,
    0x20, 0x2a, 0x0a]⟩

/-- The value is missed behind the comment when the game is catalogued and in front of it when the
game is read. -/
theorem headers_heard_twice_of_commented :
    ∃ e ∈ (Text.ofBytes commented).games false,
      ((Text.ofBytes commented).pairProblems false e).map Problem.identity =
          [(.illegalTagValue, some 11)] ∧
        (Game.read ⟨0, .ofBytes commented⟩ false 1 e).headerProblems.map Problem.identity =
          [(.illegalTagValue, some 7)] := by
  have hgame : (Text.ofBytes commented).games false =
      [⟨1, ⟨0, 6⟩, ⟨7, 18⟩, (Text.ofBytes commented).checksum ⟨0, 6⟩, .illegalTagValue⟩] := by
    decide +kernel
  refine ⟨_, hgame ▸ List.mem_singleton_self _, ?_, ?_⟩ <;> decide +kernel

end Database

end Scorebook
