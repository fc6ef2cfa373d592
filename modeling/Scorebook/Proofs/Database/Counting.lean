import Scorebook.Proofs.Database.Events
import Scorebook.Proofs.Database.Growth

/-!
# What is counted when a file was replaced

A count looks at the file and catalogues what is left of it, but it forgets no game because the file
became shorter: only growth opens a complete catalogue again, and reading finds out what went stale.
So a count may be of games that were in the file once. What one event adds to the catalogue lies
inside the text that is looked at behind it, and by induction every game that is catalogued lies
inside some text that was looked at before. A count is therefore of games inside the file as long as
no longer file was ever seen, and two games counted in a file of one show that nothing more can be
said.
-/

namespace Scorebook

/-- Does the game lie inside a text of this size? -/
def Entry.Within (e : Entry) (size : Nat) : Prop :=
  e.tags.stop ≤ size ∧ e.movetext.stop ≤ size

instance (e : Entry) (size : Nat) : Decidable (e.Within size) :=
  inferInstanceAs (Decidable (_ ∧ _))

/-- A game that lies within a text lies within any longer one. -/
theorem Entry.Within.mono {e : Entry} {size size' : Nat} (h : e.Within size) (hle : size ≤ size') :
    e.Within size' :=
  ⟨Nat.le_trans h.1 hle, Nat.le_trans h.2 hle⟩

/-- A game that was found lies within its text. -/
theorem Text.Lies.within {t : Text} {start next : Nat} {entry : Entry}
    (h : t.Lies start entry next) : entry.Within t.size := by
  have := h.tags_le
  have := h.movetext_le
  have := h.stop_le
  have := h.next_le
  constructor <;> omega

/-! ## One request -/

namespace Catalogue

/-- A request keeps the games it finds catalogued, and all that it adds lie inside the text. -/
theorem exists_found_of_ensure (c : Catalogue) (strict : Bool) (buffer : Buffer) (target : Nat)
    (r : Reporter) :
    ∃ found, (c.ensure strict buffer target r).2.1.entries.toList = c.entries.toList ++ found ∧
      ∀ e ∈ found, e.Within buffer.text.size := by
  -- Either nothing is scanned, or each entry added lies within the text as it is now.
  by_cases hdone : c.complete = true ∨ target ≤ c.entries.size
  · rw [ensure_of_done hdone]
    exact ⟨[], by rw [List.append_nil], nofun⟩
  · rw [ensure_snd_fst_of_open hdone]
    obtain ⟨_, hfound⟩ := extendFrom_keeps
      (Q := fun _ c' => ∃ found, c'.entries.toList = c.entries.toList ++ found ∧
        ∀ e ∈ found, e.Within buffer.text.size) strict buffer target r
      (by
        intro _ c' _ hc _
        exact hc)
      (by
        intro _ c' _ _ hc _
        exact hc)
      (by
        rintro _ c' entry next _ ⟨found, hentries, hwithin⟩ _ hitem
        have hlies := (Text.found_of_nextItem hitem).2.lies
        refine ⟨found ++ [{ entry with ordinal := c'.entries.size + 1 }], ?_, ?_⟩
        · rw [Catalogue.add, Array.toList_push, hentries, List.append_assoc]
        · intro e he
          rcases List.mem_append.1 he with he | he
          · exact hwithin e he
          · obtain rfl := List.mem_singleton.1 he
            exact hlies.within)
      ⟨[], by rw [List.append_nil], nofun⟩
    exact hfound

/-- Opening a complete catalogue again drops its last game. -/
theorem toList_reopen (c : Catalogue) :
    c.reopen.entries.toList =
      if c.complete = true then c.entries.toList.dropLast else c.entries.toList := by
  unfold reopen
  by_cases hcomplete : c.complete = true
  · rw [if_pos hcomplete, if_pos hcomplete]
    rcases hback : c.entries.back? with _ | last
    · have hempty : c.entries.toList = [] := by
        rw [← Array.getLast?_toList] at hback
        exact List.getLast?_eq_none_iff.1 hback
      simp only [hempty, List.dropLast_nil]
    · exact Array.toList_pop
  · rw [if_neg hcomplete, if_neg hcomplete]

end Catalogue

namespace Database

variable {db : Database} {kept : List Entry}

/-- What a look at a modified file leaves of the catalogue: everything, less the last game if all
games were catalogued and the file has grown. -/
def retained (db : Database) (file : FileState) : List Entry :=
  if db.catalogue.complete = true ∧ db.buffer.text.size < file.bytes.size then db.entries.dropLast
  else db.entries

/-- After a change of the file the entries that are retained are left. -/
theorem entries_refresh_of_modified {file : FileState} (hfile : db.store.inFile = true)
    (hmodified : db.store.current.modified ≠ some file.modified) :
    (db.refresh (.ok file)).2.entries = db.retained file := by
  rw [refresh_of_modified hfile hmodified, retained, entries]
  by_cases hgrew : db.buffer.text.size < file.bytes.size
  · simp only [hgrew, and_true, if_true]
    exact Catalogue.toList_reopen _
  · simp only [hgrew, and_false, if_false]
    rfl

/-! ## A run -/

/-- All games catalogued, except those kept, lie inside the text that is looked at. -/
def InsideBut (db : Database) (kept : List Entry) : Prop :=
  ∀ e ∈ db.entries, e ∈ kept ∨ e.Within db.buffer.text.size

/-- A catalogue of kept entries has no others. -/
theorem InsideBut.of_subset (h : db.entries ⊆ kept) : db.InsideBut kept :=
  fun _ he => .inl (h he)

/-- A request adds entries that lie inside the text, and no others. -/
theorem InsideBut.indexTo (h : db.InsideBut kept) (target : Nat) :
    (db.indexTo target).2.InsideBut kept := by
  obtain ⟨found, hentries, hwithin⟩ :=
    db.catalogue.exists_found_of_ensure db.options.strict db.buffer target db.reporter
  intro e he
  have hmem : e ∈ db.catalogue.entries.toList ++ found := hentries ▸ he
  rcases List.mem_append.1 hmem with hold | hfound
  · exact h e hold
  · exact .inr (hwithin e hfound)

/-- Noticing a change of the file adds no entries. -/
theorem entries_refresh_subset (db : Database) (disk : Disk) :
    (db.refresh disk).2.entries ⊆ db.entries := by
  unfold Database.refresh
  split
  · exact fun _ he => he
  · simp only [entries]
    split
    · rw [Catalogue.toList_reopen]
      split
      · exact List.dropLast_subset _
      · exact fun _ he => he
    · exact fun _ he => he

/-- Giving up on a game adds no entries. -/
theorem entries_reject_subset (db : Database) (n : Nat) (problem : Problem) :
    (db.reject n problem).2.entries ⊆ db.entries := by
  show (db.catalogue.invalidateFrom n).entries.toList ⊆ db.catalogue.entries.toList
  unfold Catalogue.invalidateFrom
  split
  · rw [Array.toList_extract]
    exact fun _ he => List.mem_of_mem_drop (List.mem_of_mem_take he)
  · exact fun _ he => he

/-- What an event leaves catalogued was catalogued before, or lies inside the text that is looked at
now. -/
theorem insideBut_undergo (db : Database) (event : Event) :
    (db.undergo event).InsideBut db.entries := by
  have hnow : db.InsideBut db.entries := .of_subset fun _ he => he
  apply undergo_keeps (P := (InsideBut · db.entries)) event hnow
  · exact fun disk => .of_subset (db.entries_refresh_subset disk)
  · exact fun _ target _ h => h.indexTo target
  · intro _ n problem h e he
    exact h e (entries_reject_subset _ n problem he)
  · intro db n entry h _ _
    obtain ⟨_, _, _, hafter⟩ := db.readAt_frame n entry
    rw [hafter]
    exact h
  · exact fun _ => hnow

/-- After any events, each game catalogued was catalogued before, or lies inside a text that was
looked at on the way. -/
theorem exists_within_of_undergoAll (db : Database) (events : List Event) :
    ∀ e ∈ (db.undergoAll events).entries, e ∈ db.entries ∨ ∃ k ≤ events.length,
      e.Within (db.undergoAll (events.take k)).buffer.text.size := by
  induction events generalizing db with
  | nil => exact fun _ he => .inl he
  | cons event events ih =>
    intro e he
    rcases ih (db.undergo event) e he with hold | ⟨k, hk, hwithin⟩
    · rcases db.insideBut_undergo event e hold with holder | hwithin
      · exact .inl holder
      · exact .inr ⟨1, Nat.succ_le_succ (Nat.zero_le _), hwithin⟩
    · exact .inr ⟨k + 1, Nat.succ_le_succ hk, hwithin⟩

/-- A database that is kept in a file stays in it. -/
theorem inFile_undergo (db : Database) (event : Event) :
    (db.undergo event).store.inFile = db.store.inFile := by
  apply undergo_keeps (P := (·.store.inFile = db.store.inFile)) event rfl
  · exact db.inFile_refresh
  · exact fun _ _ _ h => h
  · exact fun _ _ _ h => h
  · intro after n entry h _ _
    obtain ⟨_, _, _, hafter⟩ := after.readAt_frame n entry
    rw [hafter]
    exact h
  · exact fun _ => rfl

/-- It does so whatever it undergoes. -/
theorem inFile_undergoAll (db : Database) (events : List Event) :
    (db.undergoAll events).store.inFile = db.store.inFile := by
  induction events generalizing db with
  | nil => rfl
  | cons event events ih => exact (ih (db.undergo event)).trans (db.inFile_undergo event)

/-! ## Counting -/

/-- A request that succeeds answers how many games are catalogued then. -/
theorem indexTo_answer {target count : Nat} (h : (db.indexTo target).1 = .ok count) :
    count = (db.indexTo target).2.entries.length := by
  show count = (db.catalogue.ensure db.options.strict db.buffer target
    db.reporter).2.1.entries.toList.length
  rw [Array.length_toList]
  by_cases hdone : db.catalogue.complete = true ∨ target ≤ db.catalogue.entries.size
  · rw [indexTo, Catalogue.ensure_of_done hdone] at h
    rw [Catalogue.ensure_of_done hdone]
    exact (Except.ok.inj h).symm
  · rw [indexTo, Catalogue.ensure_of_open hdone] at h
    rw [Catalogue.ensure_of_open hdone]
    rcases hfailure : (Catalogue.extendFrom db.options.strict db.buffer target
      (Catalogue.scanStart db.buffer.text db.catalogue.resume) db.catalogue
      db.reporter).1 with _ | failure
    · simp only [hfailure, Option.elim_none] at h
      exact (Except.ok.inj h).symm
    · simp only [hfailure, Option.elim_some] at h
      cases h

/-- A count of a modified file keeps what the look at it left, and adds games inside it. -/
theorem gameCount_of_modified {file : FileState} (hfile : db.store.inFile = true)
    (hmodified : db.store.current.modified ≠ some file.modified) :
    (db.gameCount (.ok file)).2.buffer.text = .ofBytes file.bytes ∧
      (∀ count, (db.gameCount (.ok file)).1 = .ok count →
        count = (db.gameCount (.ok file)).2.entries.length) ∧
      ∃ found, (db.gameCount (.ok file)).2.entries = db.retained file ++ found ∧
        ∀ e ∈ found, e.Within file.bytes.size := by
  have hseen := refresh_of_modified hfile hmodified
  have hretained := entries_refresh_of_modified hfile hmodified
  rw [hseen] at hretained
  rw [gameCount, hseen]
  refine ⟨rfl, fun _ hcount => indexTo_answer hcount, ?_⟩
  rw [← hretained]
  exact Catalogue.exists_found_of_ensure ..

/-- What is retained was catalogued before. -/
theorem retained_subset (db : Database) (file : FileState) : db.retained file ⊆ db.entries := by
  unfold retained
  split
  · exact List.dropLast_subset _
  · exact fun _ he => he

/-- A count that succeeds after the file was replaced is of the games catalogued then: those that
the look at the file left, followed by ones that lie inside it. So all games counted lie inside the
file exactly if those left do, as they must if the database never looked at a longer file. -/
theorem counted_after_replacement (name : String) (file : FileState) (strict : Bool)
    (prefetch : UInt32) :
    ∃ opened, ofFile name (.ok file) ⟨strict, prefetch.toNat⟩ = .ok opened ∧
      ∀ (events : List Event) (db : Database), opened.undergoAll events = db →
      ∀ now : FileState, db.store.current.modified ≠ some now.modified →
      ∀ (count : Nat) (after : Database), db.gameCount (.ok now) = (.ok count, after) →
        after.buffer.text = .ofBytes now.bytes ∧ count = after.entries.length ∧
          (∃ found, after.entries = db.retained now ++ found ∧
            ∀ e ∈ found, e.Within now.bytes.size) ∧
          ((∀ e ∈ after.entries, e.Within now.bytes.size) ↔
            ∀ e ∈ db.retained now, e.Within now.bytes.size) ∧
          ((∀ k ≤ events.length,
              (opened.undergoAll (events.take k)).buffer.text.size ≤ now.bytes.size) →
            ∀ e ∈ after.entries, e.Within now.bytes.size) := by
  obtain ⟨opened, hopened, hfiled, -⟩ := ofFile_filed name file strict prefetch
  refine ⟨opened, hopened, ?_⟩
  rintro events db rfl now hmodified count after hcount
  have hfile : (opened.undergoAll events).store.inFile = true :=
    (opened.inFile_undergoAll events).trans hfiled.inFile
  obtain ⟨htext, hanswer, found, hentries, hfound⟩ := gameCount_of_modified hfile hmodified
  rw [hcount] at htext hanswer hentries
  -- What is found anew lies in the text, so only what is retained may not.
  have hall : (∀ e ∈ after.entries, e.Within now.bytes.size) ↔
      ∀ e ∈ (opened.undergoAll events).retained now, e.Within now.bytes.size := by
    rw [hentries]
    constructor
    · exact fun h e he => h e (List.mem_append_left found he)
    · intro h e he
      rcases List.mem_append.1 he with he | he
      · exact h e he
      · exact hfound e he
  refine ⟨htext, hanswer count rfl, ⟨found, hentries, hfound⟩, hall, ?_⟩
  -- An entry was found in one of the contents there were, none of which was longer.
  intro hgrown
  rw [hall]
  intro e he
  rcases opened.exists_within_of_undergoAll events e (retained_subset _ now he) with
    hfirst | ⟨k, hk, hwithin⟩
  · have hmem : e ∈ (Text.ofBytes file.bytes).games strict := by
      rw [entries, hfiled.steady.tracks.entries_eq] at hfirst
      exact List.mem_of_mem_take hfirst
    obtain ⟨_, hlies⟩ := Text.lies_of_mem_games hmem
    have hsize := hgrown 0 (Nat.zero_le _)
    rw [Database.buffer] at hsize
    exact hlies.within.mono (hfiled.steady.text_eq ▸ hsize)
  · exact hwithin.mono (hgrown k hk)

/-- Two games that were counted are counted again once there is more to the second. -/
theorem counted_after_replacement_of_pair :
    ∃ opened after,
      ofFile "db.pgn" (.ok ⟨pair, 1⟩) ⟨false, 0⟩ = .ok opened ∧
      (opened.undergoAll [.count (.ok ⟨pair, 1⟩)]).gameCount (.ok ⟨pair ++ ending, 2⟩) =
        (.ok 2, after) ∧
      ∀ e ∈ after.entries, e.Within (pair ++ ending).size := by
  obtain ⟨opened, hopened, hcounted⟩ := counted_after_replacement "db.pgn" ⟨pair, 1⟩ false 0
  obtain rfl : unread (.ofFile "db.pgn" ⟨pair, 1⟩) ⟨false, 0⟩ = opened := Except.ok.inj hopened
  have hanswer : (((unread (.ofFile "db.pgn" ⟨pair, 1⟩) ⟨false, 0⟩).undergoAll
      [.count (.ok ⟨pair, 1⟩)]).gameCount (.ok ⟨pair ++ ending, 2⟩)).1.toOption = some 2 := by
    decide +kernel
  rcases hcount : ((unread (.ofFile "db.pgn" ⟨pair, 1⟩) ⟨false, 0⟩).undergoAll
      [.count (.ok ⟨pair, 1⟩)]).gameCount (.ok ⟨pair ++ ending, 2⟩) with ⟨_ | count, after⟩
  · rw [hcount] at hanswer
    cases hanswer
  · rw [hcount] at hanswer
    obtain rfl : count = 2 := Option.some.inj hanswer
    refine ⟨_, after, hopened, hcount, ?_⟩
    exact (hcounted [.count (.ok ⟨pair, 1⟩)] _ rfl ⟨pair ++ ending, 2⟩ (by decide +kernel) 2 after
      hcount).2.2.2.2 (by decide +kernel)

/-- Two games that were counted are counted again once the second is not there any more. -/
theorem counted_beyond_the_end :
    ∃ opened,
      ofFile "db.pgn" (.ok ⟨pair, 1⟩) ⟨false, 0⟩ = .ok opened ∧
      ((opened.undergoAll [.count (.ok ⟨pair, 1⟩)]).gameCount (.ok ⟨single, 2⟩)).1.toOption =
        some 2 ∧
      ¬∀ e ∈ ((opened.undergoAll [.count (.ok ⟨pair, 1⟩)]).gameCount
        (.ok ⟨single, 2⟩)).2.entries, e.Within single.size := by
  refine ⟨unread (.ofFile "db.pgn" ⟨pair, 1⟩) ⟨false, 0⟩, rfl, ?_, ?_⟩
  · decide +kernel
  · decide +kernel

end Database

end Scorebook
