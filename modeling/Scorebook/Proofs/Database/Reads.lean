import Scorebook.Database

/-!
# What becomes of a read

A read looks at the file, catalogues as far as the game asked for, checks the place of it and reads
it there; it can come to an end after each of that. `Database.Course` lists the ways it can go, each
with what was found out on it, with the answer and with the database it leaves.
-/

namespace Scorebook.Database

/-! ## Looking at the file -/

/-- A look at a file that was modified since the last one. -/
theorem refresh_of_modified {db : Database} {file : FileState}
    (hfile : db.store.inFile = true)
    (hmodified : db.store.current.modified ≠ some file.modified) :
    db.refresh (.ok file) = (.ok (), { db with
      store := { db.store with current := .ofFile (db.store.current.buffer.key + 1) file }
      catalogue :=
        if db.buffer.text.size < file.bytes.size then db.catalogue.reopen else db.catalogue }) := by
  simp only [refresh, Store.refresh, hfile, if_true, if_neg hmodified]
  rfl

/-- A look at the file may find other bytes and open the catalogue again, and changes nothing
else. -/
theorem refresh_frame (db : Database) (disk : Disk) :
    ∃ store catalogue, (db.refresh disk).2 = { db with store, catalogue } := by
  unfold refresh
  split
  · exact ⟨db.store, db.catalogue, rfl⟩
  · exact ⟨_, _, rfl⟩

/-! ## Courses -/

/-- Reading at a place leaves what was catalogued, and of what, alone. -/
theorem readAt_frame (db : Database) (n : Nat) (entry : Entry) :
    ∃ reporter cursor current, (db.readAt n entry).2 = { db with reporter, cursor, current } := by
  unfold readAt
  split
  · exact ⟨_, _, _, rfl⟩
  · simp only
    split <;> exact ⟨_, _, _, rfl⟩

/-- The courses a read of game `n` can take. The database is `seen` once the file was looked at, and
`reached` once it is catalogued up to the game. -/
inductive Course (db : Database) (disk : Disk) (n : Nat) :
    Except Failure (Option Reading) × Database → Prop
  /-- There is no game zero. -/
  | zero (hn : n = 0) : Course db disk n (.ok none, db)
  /-- The file could not be looked at. -/
  | unseen {failure : Failure} {seen : Database} (hn : n ≠ 0)
      (hseen : db.refresh disk = (.error failure, seen)) :
      Course db disk n (.error failure, seen)
  /-- A handler stopped the cataloguing. -/
  | unreached {seen reached : Database} {failure : Failure} (hn : n ≠ 0)
      (hseen : db.refresh disk = (.ok (), seen))
      (hreached : seen.indexTo n = (.error failure, reached)) :
      Course db disk n (.error failure, reached)
  /-- There are fewer games. -/
  | absent {seen reached : Database} {count : Nat} (hn : n ≠ 0)
      (hseen : db.refresh disk = (.ok (), seen))
      (hreached : seen.indexTo n = (.ok count, reached))
      (habsent : count < n ∨ reached.catalogue.entry? n = none) :
      Course db disk n (.ok none, reached)
  /-- The catalogued place is out of date. -/
  | stale {seen reached : Database} {count : Nat} {entry : Entry} {problem : Problem} (hn : n ≠ 0)
      (hseen : db.refresh disk = (.ok (), seen))
      (hreached : seen.indexTo n = (.ok count, reached)) (hcount : n ≤ count)
      (hentry : reached.catalogue.entry? n = some entry)
      (hstale : stale? reached.buffer.text n entry = some problem) :
      Course db disk n (.error (reached.reject n problem).1, (reached.reject n problem).2)
  /-- The game is read at its place. -/
  | read {seen reached : Database} {count : Nat} {entry : Entry} (hn : n ≠ 0)
      (hseen : db.refresh disk = (.ok (), seen))
      (hreached : seen.indexTo n = (.ok count, reached)) (hcount : n ≤ count)
      (hentry : reached.catalogue.entry? n = some entry)
      (hstale : stale? reached.buffer.text n entry = none) :
      Course db disk n ((reached.readAt n entry).1.map some, (reached.readAt n entry).2)

/-- Every read takes one of the courses. -/
theorem readGame_course (db : Database) (disk : Disk) (n : Nat) :
    Course db disk n (db.readGame disk n) := by
  unfold readGame
  split
  · next hn => exact .zero hn
  · next hn =>
    rcases hseen : db.refresh disk with ⟨answer, seen⟩
    cases answer with
    | error failure => exact .unseen hn hseen
    | ok _ =>
      simp only
      rcases hreached : seen.indexTo n with ⟨answer, reached⟩
      cases answer with
      | error failure => exact .unreached hn hseen hreached
      | ok count =>
        simp only
        split
        · next hcount => exact .absent hn hseen hreached (.inl hcount)
        · next hcount =>
          split
          · next hentry => exact .absent hn hseen hreached (.inr hentry)
          · next entry hentry =>
            have hcount := Nat.not_lt.1 hcount
            split
            · next problem hstale => exact .stale hn hseen hreached hcount hentry hstale
            · next hstale =>
              have hread := Course.read hn hseen hreached hcount hentry hstale
              generalize reached.readAt n entry = result at hread ⊢
              obtain ⟨answer, after⟩ := result
              cases answer with
              | error failure => exact hread
              | ok reading => exact hread

/-- A read keeps what a look at the file, a request for games, the rejection of an entry that is out
of date and reading at a good place keep. -/
theorem readGame_keeps {P : Database → Prop} {db : Database} {disk : Disk} {n : Nat} (h : P db)
    (hrefresh : P (db.refresh disk).2) (hindex : ∀ db, P db → P (db.indexTo n).2)
    (hreject : ∀ db entry problem, P db → db.catalogue.entry? n = some entry →
      stale? db.buffer.text n entry = some problem → P (db.reject n problem).2)
    (hread : ∀ db entry, P db → db.catalogue.entry? n = some entry →
      stale? db.buffer.text n entry = none → P (db.readAt n entry).2) :
    P (db.readGame disk n).2 := by
  have hreach {seen reached : Database} {answer : Except Failure Nat}
      (hseen : db.refresh disk = (.ok (), seen)) (hreached : seen.indexTo n = (answer, reached)) :
      P reached := by
    rw [hseen] at hrefresh
    have hindexed := hindex seen hrefresh
    rwa [hreached] at hindexed
  have hcourse := db.readGame_course disk n
  generalize db.readGame disk n = result at hcourse ⊢
  cases hcourse with
  | zero => exact h
  | unseen _ hseen => rwa [hseen] at hrefresh
  | unreached _ hseen hreached | absent _ hseen hreached => exact hreach hseen hreached
  | stale _ hseen hreached _ hentry hstale =>
    exact hreject _ _ _ (hreach hseen hreached) hentry hstale
  | read _ hseen hreached _ hentry hstale =>
    exact hread _ _ (hreach hseen hreached) hentry hstale

/-- A count keeps what a look at the file and a request for games keep. -/
theorem gameCount_keeps {P : Database → Prop} {db : Database} {disk : Disk}
    (hrefresh : P (db.refresh disk).2)
    (hindex : ∀ db, P db → P (db.indexTo Catalogue.allGames).2) : P (db.gameCount disk).2 := by
  unfold gameCount
  generalize db.refresh disk = result at hrefresh ⊢
  obtain ⟨answer, seen⟩ := result
  cases answer with
  | error failure => exact hrefresh
  | ok _ => exact hindex seen hrefresh

end Scorebook.Database
