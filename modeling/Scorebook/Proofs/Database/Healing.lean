import Scorebook.Proofs.Database.Events
import Scorebook.Proofs.Database.Staleness
import Scorebook.Proofs.Game.Problems
import Scorebook.Proofs.Reporter.Obliging

/-!
# Getting over entries that are out of date

A read that finds its entry out of date forgets it together with all entries behind it, and nothing
else of the database changes. Whatever is catalogued from then on is made of the bytes that read
saw, wherever in them the scan goes on: in front of the place to resume at there may be anything.
So while the file stays as it was then, no entry from that number on can be out of date again, and
the next read of the game comes to what the text has to offer.
-/

namespace Scorebook

/-- The problem says that an entry is out of date. -/
def Problem.IsStale : Problem → Prop
  | gameOutOfRange .. | hashMismatch .. => True
  | fault .. | tokensAfterTermination .. | io _ => False

/-- The operation failed because an entry is out of date. -/
def Failure.IsStale (failure : Failure) : Prop :=
  ∃ problem, failure.problem? = some problem ∧ problem.IsStale

/-- That an entry is stale is critical. -/
theorem Problem.IsStale.isCritical {p : Problem} (h : p.IsStale) : p.isCritical = true := by
  cases p with
  | gameOutOfRange | hashMismatch => rfl
  | fault | tokensAfterTermination | io => cases h

/-- An unmatched parenthesis is no sign of a stale entry. -/
theorem Problem.IsUnmatched.not_isStale {p : Problem} (h : p.IsUnmatched) : ¬ p.IsStale := by
  obtain ⟨span, rfl | rfl⟩ := h <;> exact id

/-! ## Looking twice -/

/-- A second look at the same disk finds nothing new. -/
theorem Store.refresh_refresh {s s' : Store} {disk : Disk} (h : s.refresh disk = .ok s') :
    s'.refresh disk = .ok s' := by
  unfold Store.refresh at h
  split at h
  · next hfile =>
    split at h
    · cases h
    · next file =>
      split at h
      · next hmodified =>
        cases h
        simp only [Store.refresh, hfile, if_true, if_pos hmodified]
      · cases h
        simp only [Store.refresh, hfile, if_true]
        exact if_pos rfl
  · next hmemory =>
    cases h
    simp only [Store.refresh, if_neg hmemory]

/-! ## Catalogues -/

namespace Catalogue

/-- The entries behind the first `k` were made of this text. -/
def CurrentFrom (c : Catalogue) (t : Text) (strict : Bool) (k : Nat) : Prop :=
  ∀ (i : Nat) (e : Entry), k ≤ i → c.entries[i]? = some e → e.IsOf t strict

variable {c : Catalogue} {strict : Bool} {k : Nat}

/-- Behind the last entry all entries are current. -/
theorem CurrentFrom.of_size_le (t : Text) (strict : Bool) (h : c.entries.size ≤ k) :
    c.CurrentFrom t strict k := by
  intro i e hi he
  have hlt := (Array.getElem?_eq_some_iff.1 he).1
  omega

/-- What a request finds was made of the text it was asked about. -/
theorem CurrentFrom.ensure {buffer : Buffer} (h : c.CurrentFrom buffer.text strict k)
    (target : Nat) (r : Reporter) :
    (c.ensure strict buffer target r).2.1.CurrentFrom buffer.text strict k := by
  by_cases hdone : c.complete = true ∨ target ≤ c.entries.size
  · rw [ensure_of_done hdone]
    exact h
  · rw [ensure_snd_fst_of_open hdone]
    obtain ⟨_, hcurrent⟩ := extendFrom_keeps
      (Q := fun _ c => c.CurrentFrom buffer.text strict k) strict buffer target r
      (fun _ _ _ hc _ => hc) (fun _ _ _ _ hc _ => hc)
      (by
        intro pos c entry next problems hc _ hitem i e hi he
        rw [add, Array.getElem?_push] at he
        split at he
        · cases he
          exact .of_nextItem hitem _
        · exact hc i e hi he)
      h
    exact hcurrent

/-- Cutting back leaves no entry that was not there. -/
theorem CurrentFrom.invalidateFrom {t : Text} (h : c.CurrentFrom t strict k) (n : Nat) :
    (c.invalidateFrom n).CurrentFrom t strict k := by
  unfold Catalogue.invalidateFrom
  split
  · intro i e hi he
    rw [Array.getElem?_extract] at he
    split at he
    · exact h i e hi (by rwa [Nat.zero_add] at he)
    · cases he
  · exact h

/-- Opening again drops entries from the end only. -/
theorem isPrefix_reopen (c : Catalogue) : c.reopen.entries.toList <+: c.entries.toList := by
  unfold reopen
  split
  · split
    · rw [Array.toList_pop]
      exact List.dropLast_prefix _
    · exact List.prefix_rfl
  · exact List.prefix_rfl

end Catalogue

namespace Database

variable {db seen : Database} {disk : Disk} {k n : Nat} {failure : Failure}

/-- A refresh that succeeds changes nothing but the store and the end of the catalogue. -/
theorem refresh_eq_ok (h : db.refresh disk = (.ok (), seen)) :
    ∃ store catalogue, db.store.refresh disk = .ok store ∧
      seen = { db with store, catalogue } ∧ catalogue.entries.toList <+: db.entries := by
  unfold refresh at h
  split at h
  · cases h
  · next store hstore =>
    refine ⟨store, _, hstore, (congrArg Prod.snd h).symm, ?_⟩
    split
    · exact db.catalogue.isPrefix_reopen
    · exact List.prefix_rfl

/-- A refresh fails for no problem of the text. -/
theorem problem?_of_refresh (h : db.refresh disk = (.error failure, seen)) :
    failure.problem? = none := by
  unfold refresh at h
  split at h
  · cases h
    rfl
  · cases h

/-- A game cannot be read because of one of its problems. -/
theorem exists_mem_of_readAt {entry : Entry} (h : (db.readAt n entry).1 = .error failure) :
    ∃ problem ∈ (Game.read db.buffer db.options.strict n entry).problems,
      failure.problem? = some problem := by
  unfold readAt at h
  split at h
  · cases h
  · simp only at h
    split at h
    · next hreport =>
      cases h
      exact Reporter.exists_mem_of_reportAll (congrArg Prod.fst hreport)
    · cases h

/-- The entries behind the first `k` were made of the text the database looks at. -/
def CurrentFrom (db : Database) (k : Nat) : Prop :=
  db.catalogue.CurrentFrom db.buffer.text db.options.strict k

/-- A request for games adds entries that are current. -/
theorem CurrentFrom.indexTo (h : db.CurrentFrom k) (target : Nat) :
    (db.indexTo target).2.CurrentFrom k :=
  Catalogue.CurrentFrom.ensure h target db.reporter

/-- An entry among those is not out of date. -/
theorem CurrentFrom.good {entry : Entry} (h : db.CurrentFrom k) (hk : k < n)
    (hentry : db.catalogue.entry? n = some entry) :
    entry.IsOf db.buffer.text db.options.strict ∧ stale? db.buffer.text n entry = none := by
  obtain ⟨i, rfl⟩ := Nat.exists_eq_succ_of_ne_zero (le_size_of_entry hentry).1
  have hisOf := h i entry (Nat.le_of_lt_succ hk) hentry
  exact ⟨hisOf, stale?_eq_none hisOf _⟩

/-! ## A read that finds its entry out of date -/

/-- A read that fails because an entry is out of date has found the entry of its own game so, one
that was catalogued before. -/
theorem exists_stale_of_readGame (hread : (db.readGame disk n).1 = .error failure)
    (hfailure : failure.IsStale) :
    ∃ seen entry problem, db.refresh disk = (.ok (), seen) ∧
      seen.catalogue.entry? n = some entry ∧ stale? seen.buffer.text n entry = some problem ∧
      db.readGame disk n = (.error (.fatal problem), (seen.reject n problem).2) := by
  obtain ⟨problem, hproblem, hstale⟩ := hfailure
  have hcourse := db.readGame_course disk n
  generalize hresult : db.readGame disk n = result at hcourse hread
  cases hcourse with
  -- Of the ways a read can go, one gives a stale failure and drops something.
  | zero | absent => cases hread
  | unseen hn hseen =>
    cases hread
    -- Reading the file anew fails with no problem at all.
    rw [problem?_of_refresh hseen] at hproblem
    cases hproblem
  | @unreached seen reached failure' hn hseen hreached =>
    -- Cataloguing fails with nothing critical.
    cases hread
    obtain ⟨problem', hproblem', hplain⟩ :=
      Catalogue.recoverable_of_ensure (congrArg Prod.fst hreached)
    cases hproblem.symm.trans hproblem'
    rw [hstale.isCritical] at hplain
    cases hplain
  | @stale seen reached count entry problem' hn hseen hreached hcount hentry hplace =>
    by_cases hknown : n ≤ seen.catalogue.entries.size
    · rw [indexTo_of_le hknown] at hreached
      cases hreached
      rw [← hresult]
      exact ⟨seen, entry, problem', hseen, hentry, hplace, readGame_of_stale hseen hentry hplace⟩
    · -- An entry this very read has made cannot be out of date.
      have hcurrent : seen.CurrentFrom seen.catalogue.entries.size :=
        .of_size_le _ _ (Nat.le_refl _)
      have hreachedCurrent := hcurrent.indexTo n
      rw [hreached] at hreachedCurrent
      rw [(hreachedCurrent.good (by omega) hentry).2] at hplace
      cases hplace
  -- The problems of a game that was read are critical at most for an unmatched parenthesis.
  | @read seen reached count entry hn hseen hreached hcount hentry hplace =>
    have herror : (reached.readAt n entry).1 = .error failure := by
      rcases hanswer : (reached.readAt n entry).1 with failure' | reading
      · rw [hanswer] at hread
        exact congrArg Except.error (Except.error.inj hread)
      · rw [hanswer] at hread
        cases hread
    obtain ⟨problem', hmem, hproblem'⟩ := exists_mem_of_readAt herror
    cases hproblem.symm.trans hproblem'
    exact absurd hstale (Game.isUnmatched_of_isCritical hmem hstale.isCritical).not_isStale

/-- What a read that found game `n` out of date leaves of the database. -/
structure Drops (db : Database) (disk : Disk) (n : Nat) (after : Database) : Prop where
  /-- The games in front of it keep their entries, and no others do. -/
  entries_eq : after.entries = db.entries.take (n - 1)
  length_eq : after.entries.length = n - 1
  complete_eq : after.catalogue.complete = false
  cursor_eq : after.cursor = db.cursor
  current_eq : after.current = db.current
  options_eq : after.options = db.options
  /-- The bytes are those that were on disk. -/
  store_eq : db.store.refresh disk = .ok after.store

/-- Giving up on a game drops its entry and those behind it, and nothing else. -/
theorem drops_of_entry {entry : Entry} (problem : Problem)
    (hseen : db.refresh disk = (.ok (), seen)) (hentry : seen.catalogue.entry? n = some entry) :
    db.Drops disk n (seen.reject n problem).2 := by
  obtain ⟨store, catalogue, hstore, rfl, hprefix⟩ := refresh_eq_ok hseen
  obtain ⟨hn, hle⟩ := le_size_of_entry hentry
  obtain ⟨i, rfl⟩ := Nat.exists_eq_succ_of_ne_zero hn
  -- What is left of the catalogue are the entries in front of the one that was dropped.
  have hget : catalogue.entries[i + 1 - 1]? = some entry := hentry
  have hcut : catalogue.invalidateFrom (i + 1) =
      ⟨catalogue.entries.extract 0 i, entry.tags.start, false⟩ := by
    rw [Catalogue.invalidateFrom, hget]
    rfl
  have hentries : (Database.reject { db with store, catalogue } (i + 1) problem).2.entries =
      catalogue.entries.toList.take i := by
    show (catalogue.invalidateFrom (i + 1)).entries.toList = _
    rw [hcut, Array.toList_extract]
    rfl
  refine {
    entries_eq := ?_
    length_eq := ?_
    complete_eq := congrArg Catalogue.complete hcut
    cursor_eq := rfl
    current_eq := rfl
    options_eq := rfl
    store_eq := hstore }
  · rw [hentries, List.prefix_iff_eq_take.1 hprefix, List.take_take, Array.length_toList,
      Nat.min_eq_left (Nat.le_of_lt hle), Nat.succ_sub_one]
  · rw [hentries, List.length_take, Array.length_toList, Nat.min_eq_left (Nat.le_of_lt hle),
      Nat.succ_sub_one]

/-! ## The reads after it -/

/-- The event finds this on disk, if it looks. -/
def Event.Finds (disk : Disk) : Event → Prop
  | .count found | .read _ found | .next found => found = disk
  | .index _ | .check .. | .listen _ => True

/-- The database looks at this store, in which what is on disk was taken in, and its entries behind
the first `k` were made of it. -/
structure Settled (db : Database) (store : Store) (strict : Bool) (disk : Disk) (k : Nat) :
    Prop where
  store_eq : db.store = store
  strict_eq : db.options.strict = strict
  taken : store.refresh disk = .ok store
  current : db.CurrentFrom k

variable {store : Store} {strict : Bool}

/-- Nothing is new to a database that is settled. -/
theorem Settled.refresh (h : db.Settled store strict disk k) :
    db.refresh disk = (.ok (), db) := by
  have htaken := h.taken
  rw [← h.store_eq] at htaken
  rw [Database.refresh, htaken]
  simp

/-- A request for games leaves the database settled. -/
theorem Settled.indexTo (h : db.Settled store strict disk k) (target : Nat) :
    (db.indexTo target).2.Settled store strict disk k :=
  ⟨h.store_eq, h.strict_eq, h.taken, h.current.indexTo target⟩

/-- So does counting them. -/
theorem Settled.gameCount (h : db.Settled store strict disk k) :
    (db.gameCount disk).2.Settled store strict disk k := by
  rw [Database.gameCount, h.refresh]
  exact h.indexTo _

/-- So does reading one. -/
theorem Settled.readGame (h : db.Settled store strict disk k) (n : Nat) :
    (db.readGame disk n).2.Settled store strict disk k := by
  refine readGame_keeps (P := (Settled · store strict disk k)) h
    (by rw [h.refresh]; exact h) (fun _ h => h.indexTo n) ?_ ?_
  · intro db entry problem h _ _
    exact ⟨h.store_eq, h.strict_eq, h.taken, Catalogue.CurrentFrom.invalidateFrom h.current n⟩
  · intro db entry h _ _
    obtain ⟨_, _, _, hafter⟩ := db.readAt_frame n entry
    rw [hafter]
    exact ⟨h.store_eq, h.strict_eq, h.taken, h.current⟩

/-- Whatever happens while the file stays the same leaves the database settled. -/
theorem Settled.undergo (h : db.Settled store strict disk k) {event : Event}
    (hevent : event.Finds disk) : (db.undergo event).Settled store strict disk k := by
  cases event with
  | index target => exact h.indexTo target.toNat
  | count found =>
    obtain rfl : found = disk := hevent
    exact h.gameCount
  | read n found =>
    obtain rfl : found = disk := hevent
    exact h.readGame n.toNat
  | next found =>
    obtain rfl : found = disk := hevent
    exact h.readGame _
  | check g depth => exact ⟨h.store_eq, h.strict_eq, h.taken, h.current⟩
  | listen handler => exact ⟨h.store_eq, h.strict_eq, h.taken, h.current⟩

/-- So does any sequence of such events. -/
theorem Settled.undergoAll (h : db.Settled store strict disk k) {events : List Event}
    (hevents : ∀ event ∈ events, event.Finds disk) :
    (db.undergoAll events).Settled store strict disk k := by
  induction events generalizing db with
  | nil => exact h
  | cons event events ih =>
    exact ih (h.undergo (hevents event List.mem_cons_self))
      fun later hlater => hevents later (List.mem_cons_of_mem event hlater)

/-- What a read of game `n` can come to if its entry is not out of date and nobody objects: there is
no such game, or it is handed out, or a parenthesis in it has no partner. -/
inductive Attempt (buffer : Buffer) (strict : Bool) (n : Nat) :
    Except Failure (Option Reading) → Prop
  | absent : Attempt buffer strict n (.ok none)
  | game {reading : Reading} (hnumber : reading.game.number = n)
      (hentry : reading.game.entry.IsOf buffer.text strict) :
      Attempt buffer strict n (.ok (some reading))
  | unmatched {entry : Entry} {problem : Problem} (hentry : entry.IsOf buffer.text strict)
      (hproblem : problem ∈ (Game.read buffer strict n entry).problems)
      (hunmatched : problem.IsUnmatched) :
      Attempt buffer strict n (.error (.fatal problem))

/-- Reading at a place that is current attempts the game of that place. -/
theorem attempt_readAt {entry : Entry} (hentry : entry.IsOf db.buffer.text db.options.strict)
    (hyielding : db.reporter.Yielding) :
    Attempt db.buffer db.options.strict n ((db.readAt n entry).1.map some) := by
  unfold readAt
  split
  · -- A cached game was read from this entry, so it counts as read.
    next g hreuse =>
    obtain ⟨-, hnumber, hsame⟩ := reusable?_eq_some hreuse
    exact .game hnumber (hsame.symm ▸ hentry)
  · have hanswer := (hyielding.reportAll db.buffer
      (Game.read db.buffer db.options.strict n entry).problems).1
    simp only
    generalize db.reporter.reportAll db.buffer
      (Game.read db.buffer db.options.strict n entry).problems = result at hanswer ⊢
    obtain ⟨answer, r⟩ := result
    simp only at hanswer
    -- The first critical problem stops the reporter, which may yield on any other.
    cases hcritical : (Game.read db.buffer db.options.strict n entry).problems.find?
        Problem.isCritical with
    | none =>
      rw [hcritical] at hanswer
      subst hanswer
      exact .game rfl hentry
    | some problem =>
      rw [hcritical] at hanswer
      subst hanswer
      have hmem := List.mem_of_find?_eq_some hcritical
      exact .unmatched hentry hmem
        (Game.isUnmatched_of_isCritical hmem (List.find?_some hcritical))

/-- While the file stays, a game whose entry is not older than it is read if nobody objects. -/
theorem Settled.attempt (h : db.Settled store strict disk k) (hk : k < n)
    (hyielding : db.reporter.Yielding) :
    Attempt store.current.buffer strict n (db.readGame disk n).1 := by
  obtain ⟨rfl, rfl, -, -⟩ := id h
  have hindexed := h.indexTo n
  obtain ⟨hanswer, hstill⟩ : (db.indexTo n).1 = .ok (db.indexTo n).2.catalogue.entries.size ∧
      (db.indexTo n).2.reporter.Yielding :=
    Catalogue.ensure_of_yielding db.options.strict db.buffer n db.catalogue hyielding
  have hcourse := db.readGame_course disk n
  generalize db.readGame disk n = result at hcourse ⊢
  -- The catalogue agrees with the file, so nothing fails but the game itself.
  cases hcourse with
  | zero | absent => exact .absent
  | unseen _ hseen =>
    rw [h.refresh] at hseen
    cases hseen
  | unreached _ hseen hreached =>
    rw [h.refresh] at hseen
    cases hseen
    rw [hreached] at hanswer
    cases hanswer
  | stale _ hseen hreached _ hentry hplace =>
    rw [h.refresh] at hseen
    cases hseen
    rw [hreached] at hindexed
    rw [(hindexed.current.good hk hentry).2] at hplace
    cases hplace
  | @read seen reached count entry _ hseen hreached _ hentry _ =>
    rw [h.refresh] at hseen
    cases hseen
    rw [hreached] at hindexed hstill
    have hattempt := attempt_readAt (n := n) (hindexed.current.good hk hentry).1 hstill
    rw [hindexed.strict_eq, buffer, hindexed.store_eq] at hattempt
    exact hattempt

/-- A database gets over a stale entry in one read, whatever became of its file before. If reading
game `n` fails because an entry is out of date, then the games in front of it keep their entries,
all others lose theirs, the catalogue is open again, and the game read last stays what it was. If
then the file does not change any more, whatever else is asked for meanwhile, and whoever listens
accepts what is reported, the next read of the game comes to an answer that is of the bytes on disk:
there is no such game, or it is the game of an entry made of them, or a parenthesis in that game has
no partner. -/
theorem heals_after_stale_read (db : Database) (disk : Disk) (n : Nat) (failure : Failure)
    (hread : (db.readGame disk n).1 = .error failure) (hstale : failure.IsStale) :
    let after := (db.readGame disk n).2
    db.Drops disk n after ∧
      ∀ later : List Event, (∀ event ∈ later, event.Finds disk) →
        (after.undergoAll later).reporter.Yielding →
        Attempt after.buffer db.options.strict n ((after.undergoAll later).readGame disk n).1 := by
  obtain ⟨seen, entry, problem, hseen, hentry, -, hresult⟩ :=
    exists_stale_of_readGame hread hstale
  rw [hresult]
  have hdrops := drops_of_entry problem hseen hentry
  refine ⟨hdrops, ?_⟩
  intro later hlater hyielding
  have hsettled : (seen.reject n problem).2.Settled (seen.reject n problem).2.store
      db.options.strict disk (n - 1) := {
    store_eq := rfl
    strict_eq := congrArg Options.strict hdrops.options_eq
    taken := Store.refresh_refresh hdrops.store_eq
    current := .of_size_le _ _ (Nat.le_of_eq hdrops.length_eq) }
  obtain ⟨hn, -⟩ := le_size_of_entry hentry
  exact (hsettled.undergoAll hlater).attempt (by omega) hyielding

/-- A header that was changed in place is out of date once: behind a count and with a handler, the
next read comes to an answer that is of the new bytes. -/
theorem heals_after_stale_read_of_value :
    let db := ((unread (.ofFile "db.pgn" ⟨untouched, 1⟩) ⟨false, 0⟩).indexTo 1).2
    let disk : Disk := .ok ⟨retouched, 2⟩
    let after := (db.readGame disk 1).2
    after.entries = [] ∧
      Attempt after.buffer false 1 ((after.undergoAll
        [.count disk, .listen (some ⟨fun _ _ => true⟩)]).readGame disk 1).1 := by
  intro db disk after
  have hmodified : db.store.current.modified ≠ some 2 := by decide
  have hseen : db.refresh disk = _ := refresh_of_modified rfl hmodified
  have hentry : db.catalogue.entry? 1 =
      some ⟨1, ⟨0, 7⟩, ⟨8, 10⟩, 0xeceb78ac954ccdda, .valid⟩ := by decide +kernel
  have hplace : stale? (.ofBytes retouched) 1 ⟨1, ⟨0, 7⟩, ⟨8, 10⟩, 0xeceb78ac954ccdda, .valid⟩ =
      some (.hashMismatch 1 ⟨0, 7⟩) := by decide +kernel
  have hread := readGame_of_stale hseen hentry hplace
  obtain ⟨hdrops, hlater⟩ := heals_after_stale_read db disk 1 _ (congrArg Prod.fst hread)
    ⟨_, rfl, trivial⟩
  refine ⟨List.eq_nil_of_length_eq_zero hdrops.length_eq, hlater _ (by simp [Event.Finds]) ?_⟩
  rintro h heq n report -
  cases heq
  rfl

end Database

end Scorebook
