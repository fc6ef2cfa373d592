import Scorebook.Proofs.Database.Telling
import Scorebook.Proofs.Dump.Arguments
import Scorebook.Proofs.Dump.Lines
import Scorebook.Proofs.Game.Problems

/-!
# The exit status

A run counts what its listener was told and the reads that gave no game for a reason that nobody
hears of. The listener is told of a problem once only, and a game may be asked for twice, so not
every read that fails adds to the count. Still the count is zero only if there was nothing to tell:
`Working` ties the listener to the list of everything told so far, and that list is empty exactly if
cataloguing, reading and checking met no problem at all.
-/

namespace Scorebook.Dump

open Database (unread Recalling)

variable {request : Request} {store : Store} {disk : Disk} {told : List Problem}

/-! ## What a run is about -/

/-- The stores that a run works through, if the file can be opened. -/
def Request.stores? (request : Request) (disk : Disk) : Option (List Store) :=
  let texts := request.texts.map fun (name, text) => Store.ofBytes name text.toUTF8
  match request.database, disk with
  | none, _ => some texts
  | some name, .ok file => some (.ofFile name file :: texts)
  | some _, .error _ => none

/-- The numbers of the games that a run is asked to print. -/
def wanted (request : Request) (buffer : Buffer) : List Nat :=
  selection request (buffer.text.index request.strict).length

/-- The game of this number is there and nothing is wrong with it. -/
def Sound (request : Request) (buffer : Buffer) (n : Nat) : Prop :=
  ∃ g, buffer.fresh request.strict n = .ok (some g) ∧ g.problems = []

/-- Neither cataloguing nor reading or checking a game asked for meets a problem. -/
structure Faultless (request : Request) (buffer : Buffer) : Prop where
  catalogued : buffer.text.indexProblems request.strict = []
  read : ∀ n ∈ wanted request buffer, Sound request buffer n

/-- The lines printed for the game of this number; none if it cannot be read. -/
def linesOfGame (request : Request) (store : Store) (n : Nat) : List String :=
  match store.current.buffer.fresh request.strict n with
  | .ok (some g) => (gameLines request (unread store ⟨request.strict, 0⟩) g).1
  | .ok none | .error _ => []

/-- The line that tells the number of games, if it is asked for. -/
def linesOfCount (request : Request) (store : Store) : List String :=
  let count := (store.current.buffer.text.index request.strict).length
  if request.count then [store.name ++ ": " ++ toString count ++ " games"] else []

/-- The lines printed for a database in front of the notices. -/
def linesOfStore (request : Request) (store : Store) : List String :=
  linesOfCount request store ++
    (wanted request store.current.buffer).flatMap (linesOfGame request store)

/-- What is printed for a game does not depend on what happened in the database. -/
theorem gameLines_fst (request : Request) (db db' : Database) (g : Game) :
    (gameLines request db g).1 = (gameLines request db' g).1 :=
  (gameLines_eq request db g).trans (gameLines_eq request db' g).symm

/-- The lines of a game that can be read are those its dump prints. -/
theorem linesOfGame_eq {n : Nat} {g : Game}
    (h : store.current.buffer.fresh request.strict n = .ok (some g)) (db : Database) :
    linesOfGame request store n = (gameLines request db g).1 := by
  simp only [linesOfGame, h]
  exact gameLines_fst ..

/-- A game that can be read is shown. -/
theorem linesOfGame_shows {n : Nat} {g : Game}
    (h : store.current.buffer.fresh request.strict n = .ok (some g)) :
    Shows request g (linesOfGame request store n) :=
  linesOfGame_eq h (unread store ⟨request.strict, 0⟩) ▸ gameLines_shows ..

/-! ## At work on a database -/

/-- The state of a database while a run works on it: the listener recalls what was told, and no game
is left to catalogue. -/
structure Working (request : Request) (store : Store) (told : List Problem) (db : Database) :
    Prop where
  recalling : Recalling store request.strict told db
  done : db.catalogue.complete = true ∨ Catalogue.allGames ≤ db.catalogue.entries.size

variable {db : Database}

/-- All games are catalogued that can be asked for. -/
theorem Working.size_eq (h : Working request store told db) :
    db.catalogue.entries.size = (store.current.buffer.text.index request.strict).length := by
  have hsize := h.recalling.catalogued.tracks.size_le
  have hmost := h.recalling.catalogued.size_le
  have hcomplete := h.recalling.catalogued.tracks.size_of_complete
  rw [Text.index_eq, List.length_take]
  rcases h.done with hdone | hdone
  · have := hcomplete hdone
    omega
  · omega

/-- Nothing is told on the way to a game any more. -/
theorem Working.readGame (h : Working request store told db)
    (hstill : store.refresh disk = .ok store) {n : Nat} (hn : n ≤ Catalogue.allGames) :
    Database.Serves store request.strict told n (db.readGame disk n) ∧
      (db.readGame disk n).2.catalogue = db.catalogue := by
  have hdone : db.catalogue.complete = true ∨ n ≤ db.catalogue.entries.size :=
    h.done.imp id fun hall => Nat.le_trans hn hall
  have hserves := h.recalling.readGame hstill hn
  rw [Catalogue.problemsAhead_of_done hdone, List.append_nil] at hserves
  refine ⟨hserves, ?_⟩
  rw [h.recalling.readGame_catalogue hstill hn, Database.indexTo, Catalogue.ensure_of_done hdone]

/-! ## Cataloguing -/

/-- The database that a run starts to work on. -/
def opened (request : Request) (store : Store) : Database :=
  (unread store ⟨request.strict, 0⟩).setHandler (some listener)

/-- The listener of a dump never stops it. -/
theorem listener_obliging : listener.Obliging :=
  fun _ _ => rfl

/-- A dump starts with nothing told. -/
theorem recalling_opened (request : Request) (store : Store) :
    Recalling store request.strict [] (opened request store) :=
  .listen listener_obliging (.unread store ⟨request.strict, 0⟩) rfl rfl

/-- Cataloguing tells of all problems of it, and leaves the database ready to work on. -/
theorem working_catalogued (request : Request) (store : Store) :
    ((opened request store).indexTo Catalogue.allGames).1 =
        .ok (store.current.buffer.text.index request.strict).length ∧
      Working request store (store.current.buffer.text.indexProblems request.strict)
        ((opened request store).indexTo Catalogue.allGames).2 := by
  have hopened := recalling_opened request store
  obtain ⟨hanswer, hrecalling⟩ := hopened.indexTo (Nat.le_refl Catalogue.allGames)
  have hdone := @Catalogue.done_of_ensure request.strict store.current.buffer Catalogue.allGames
    .empty _ hopened.obliging
  have hworking : Working request store (store.current.buffer.text.indexProblems request.strict)
      ((opened request store).indexTo Catalogue.allGames).2 := ⟨hrecalling, hdone⟩
  exact ⟨hanswer.trans (congrArg _ hworking.size_eq), hworking⟩

/-- The workers change nothing about what is catalogued and told. -/
theorem catalogueAll_eq (request : Request) (hstill : store.refresh disk = .ok store) :
    catalogueAll request disk (opened request store) =
      (opened request store).indexTo Catalogue.allGames := by
  obtain ⟨hanswer, hworking⟩ := working_catalogued request store
  have hcount : (opened request store).gameCount disk =
      (opened request store).indexTo Catalogue.allGames := by
    rw [Database.gameCount, (recalling_opened request store).refresh hstill]
  unfold catalogueAll
  split
  · rcases hresult : (opened request store).indexTo Catalogue.allGames with ⟨answer, db⟩
    rw [hresult] at hanswer hworking
    subst hanswer
    have hagain : db.indexTo Catalogue.allGames = (.ok db.catalogue.entries.size, db) := by
      rw [Database.indexTo, Catalogue.ensure_of_done hworking.done]
    simp only [Database.gameCount, hworking.recalling.refresh hstill, hagain, hworking.size_eq]
  · exact hcount

/-! ## Printing -/

/-- What a run has done for a database behind the games of these numbers: it printed those that can
be read, and it has counted nothing exactly if nothing was wrong. -/
structure Dumped (request : Request) (store : Store) (before : List String) (numbers : List Nat)
    (p : Progress) : Prop where
  output : p.output.toList = before ++ numbers.flatMap (linesOfGame request store)
  complaints : p.complaints.size = p.failures
  told : ∃ told, Working request store told p.db ∧
    (told = [] ∧ p.failures = 0 ↔
      store.current.buffer.text.indexProblems request.strict = [] ∧
        ∀ n ∈ numbers, Sound request store.current.buffer n)

/-- One game more. -/
theorem Dumped.dumpGame {before : List String} {numbers : List Nat} {p : Progress} {n : Nat}
    (h : Dumped request store before numbers p) (hstill : store.refresh disk = .ok store)
    (hn : n ≤ Catalogue.allGames) :
    Dumped request store before (numbers ++ [n]) (p.dumpGame request disk n) := by
  obtain ⟨houtput, hcomplaints, told, hworking, hquiet⟩ := h
  obtain ⟨hserves, hcatalogue⟩ := hworking.readGame hstill hn
  have hdone := hworking.done
  rw [← hcatalogue] at hdone
  unfold Progress.dumpGame
  generalize p.db.readGame disk n = result at hserves hdone ⊢
  -- By what the database serves: a game, nothing under this number, or a failure.
  cases hserves with
  | @given reading after hfresh hafter =>
    -- The game is checked and printed, and its problems are told.
    have hchecked := hafter.check (Database.buffer_of_fresh hfresh) (List.subset_append_right ..)
      (if request.deep then .deep else .simple)
    refine ⟨?_, hcomplaints, told ++ reading.game.problems, ⟨hchecked, hdone⟩, ?_⟩
    · simp [Progress.print, houtput, linesOfGame_eq hfresh after]
    · -- No problem of the game, and none told before: that is what keeps the exit at 0.
      have hsound : Sound request store.current.buffer n ↔ reading.game.problems = [] := by
        simp [Sound, hfresh]
      rw [List.append_eq_nil_iff, List.forall_mem_append, List.forall_mem_singleton, hsound,
        ← and_assoc, ← hquiet]
      exact ⟨fun ⟨⟨h, h'⟩, h''⟩ => ⟨⟨h, h''⟩, h'⟩, fun ⟨⟨h, h''⟩, h'⟩ => ⟨⟨h, h'⟩, h''⟩⟩
  | @absent after hfresh hafter =>
    have hunsound : ¬ Sound request store.current.buffer n := by simp [Sound, hfresh]
    refine ⟨?_, ?_, told, ⟨hafter, hdone⟩, ?_⟩
    · simp [Progress.fail, houtput, linesOfGame, hfresh]
    · simp [Progress.fail, hcomplaints]
    · simp [Progress.fail, hunsound]
  | @stopped problem heard after hfresh hheard hafter =>
    have hunsound : ¬ Sound request store.current.buffer n := by simp [Sound, hfresh]
    refine ⟨?_, hcomplaints, told ++ heard, ⟨hafter, hdone⟩, ?_⟩
    · simp [houtput, linesOfGame, hfresh]
    · simp [hheard, hunsound]

/-- Any number of games more. -/
theorem Dumped.dumpGames {before : List String} {numbers rest : List Nat} {p : Progress}
    (h : Dumped request store before numbers p) (hstill : store.refresh disk = .ok store)
    (hrest : ∀ n ∈ rest, n ≤ Catalogue.allGames) :
    Dumped request store before (numbers ++ rest)
      (rest.foldl (Progress.dumpGame request disk) p) := by
  induction rest generalizing numbers p with
  | nil => rwa [List.append_nil]
  | cons n rest ih =>
    have hnext := h.dumpGame hstill (hrest n List.mem_cons_self)
    rw [List.append_cons]
    exact ih hnext fun m hm => hrest m (List.mem_cons_of_mem n hm)

/-- A run asks for no game that cannot be asked for. -/
theorem le_allGames_of_mem_wanted (hgames : ∀ n ∈ request.games, IsGameNumber n)
    (buffer : Buffer) : ∀ n ∈ wanted request buffer, n ≤ Catalogue.allGames := by
  intro n hn
  unfold wanted selection at hn
  split at hn
  · exact (hgames n hn).2
  · split at hn
    · cases hn
    · rw [Text.index_eq, List.length_take] at hn
      obtain ⟨hpos, hlt⟩ := List.mem_range'_1.1 hn
      omega

/-! ## One database -/

/-- The progress of a run on a database when all games were catalogued. -/
def counted (request : Request) (store : Store) : Progress :=
  ⟨((opened request store).indexTo Catalogue.allGames).2, (linesOfCount request store).toArray,
    #[], 0⟩

/-- The progress of a run on a database when all games it was asked for were dealt with. -/
def finished (request : Request) (disk : Disk) (store : Store) : Progress :=
  (wanted request store.current.buffer).foldl (Progress.dumpGame request disk)
    (counted request store)

/-- The notices that a run prints for a database. -/
def noticesOf (request : Request) (disk : Disk) (store : Store) : List String :=
  let db := (finished request disk store).db
  noticeLines store.name db.buffer db.reporter.delivered.toList

/-- A database that has not changed is processed to the end. -/
theorem processDatabase_eq (hstill : store.refresh disk = .ok store) :
    processDatabase request disk (unread store ⟨request.strict, 0⟩) =
      let p := finished request disk store
      (p.print (noticesOf request disk store),
        p.db.reporter.delivered.toList.length + p.failures) := by
  obtain ⟨hanswer, -⟩ := working_catalogued request store
  have hall := catalogueAll_eq request hstill
  unfold processDatabase finished noticesOf finished counted linesOfCount
  rw [show (unread store ⟨request.strict, 0⟩).setHandler (some listener) = opened request store
    from rfl, hall]
  generalize (opened request store).indexTo Catalogue.allGames = result at hanswer ⊢
  obtain ⟨answer, db⟩ := result
  subst hanswer
  by_cases hcount : request.count = true
  · simp only [hcount, if_true]
    rfl
  · simp only [hcount]
    rfl

/-- A database that is processed has all its requested games dumped or complained of. -/
theorem dumped_finished (hgames : ∀ n ∈ request.games, IsGameNumber n)
    (hstill : store.refresh disk = .ok store) :
    Dumped request store (linesOfCount request store) (wanted request store.current.buffer)
      (finished request disk store) := by
  have hstart : Dumped request store (linesOfCount request store) [] (counted request store) :=
    ⟨by simp [counted], rfl, _, (working_catalogued request store).2, by simp [counted]⟩
  exact hstart.dumpGames hstill (le_allGames_of_mem_wanted hgames store.current.buffer)

/-- What a run makes of one database. -/
structure Processed (request : Request) (disk : Disk) (store : Store) (result : Progress × Nat) :
    Prop where
  output : result.1.output.toList = linesOfStore request store ++ noticesOf request disk store
  count_eq_zero_iff : result.2 = 0 ↔ Faultless request store.current.buffer
  quiet : result.2 = 0 → noticesOf request disk store = [] ∧ result.1.complaints = #[]

/-- Working through a database prints its games and counts everything wrong with them. -/
theorem processDatabase_processed (hgames : ∀ n ∈ request.games, IsGameNumber n)
    (hstill : store.refresh disk = .ok store) :
    Processed request disk store
      (processDatabase request disk (unread store ⟨request.strict, 0⟩)) := by
  obtain ⟨houtput, hcomplaints, told, hworking, hquiet⟩ := dumped_finished hgames hstill
  have hheard := hworking.recalling.recalls.delivered_eq_nil_iff
  have hzero : (finished request disk store).db.reporter.delivered.toList.length +
      (finished request disk store).failures = 0 ↔
        told = [] ∧ (finished request disk store).failures = 0 := by
    rw [Nat.add_eq_zero_iff, List.length_eq_zero_iff, hheard]
  rw [processDatabase_eq hstill]
  refine ⟨?_, ?_, ?_⟩
  · simp [Progress.print, houtput, linesOfStore]
  · exact hzero.trans (hquiet.trans ⟨fun ⟨h, h'⟩ => ⟨h, h'⟩, fun ⟨h, h'⟩ => ⟨h, h'⟩⟩)
  · intro hnone
    obtain ⟨htold, hfailures⟩ := hzero.1 hnone
    refine ⟨?_, Array.eq_empty_of_size_eq_zero (hcomplaints.trans hfailures)⟩
    rw [noticesOf, hheard.2 htold]
    rfl

/-! ## Whole runs -/

/-- The databases that a run opens. -/
theorem openAll_eq (request : Request) (disk : Disk) :
    match request.stores? disk with
    | some stores =>
      openAll request disk = .ok (stores.map (unread · ⟨request.strict, 0⟩)) ∧
        ∀ store ∈ stores, store.refresh disk = .ok store
    | none => ∃ failure, openAll request disk = .error failure := by
  -- Texts are opened in memory, which cannot fail, and they do not change on the disk.
  let texts := request.texts.map fun (name, text) => Store.ofBytes name text.toUTF8
  have hback : (request.texts.mapM fun (name, text) =>
      Database.ofBytes name text.toUTF8 ⟨request.strict, 0⟩) =
        .ok (texts.map (unread · ⟨request.strict, 0⟩)) := by
    rw [List.map_map]
    exact List.mapM_pure (m := Except Failure)
  have hstill : ∀ store ∈ texts, store.refresh disk = .ok store := by
    intro store hstore
    obtain ⟨_, -, rfl⟩ := List.mem_map.1 hstore
    rfl
  unfold Request.stores? openAll
  simp only [hback]
  cases request.database with
  | none => exact ⟨rfl, hstill⟩
  | some name =>
    cases disk with
    | error reason => exact ⟨_, rfl⟩
    | ok file =>
      refine ⟨rfl, fun store hstore => ?_⟩
      rcases List.mem_cons.1 hstore with rfl | hstore
      · simp [Store.refresh, Store.ofFile, Snapshot.ofFile]
      · exact hstill store hstore

theorem toList_foldl_append {α β : Type} (f : α → Array β) (l : List α) (out : Array β) :
    (l.foldl (fun out a => out ++ f a) out).toList = out.toList ++ l.flatMap (f · |>.toList) := by
  induction l generalizing out with
  | nil => simp
  | cons a l ih => simp [ih]

theorem foldl_add_eq_zero_iff {α : Type} (f : α → Nat) (l : List α) (n : Nat) :
    l.foldl (fun n a => n + f a) n = 0 ↔ n = 0 ∧ ∀ a ∈ l, f a = 0 := by
  induction l generalizing n with
  | nil => simp
  | cons a l ih => simp [ih, and_assoc]

/-- What a run prints when its databases can be opened. -/
structure Ran (request : Request) (disk : Disk) (stores : List Store) (printout : Printout) :
    Prop where
  exit : printout.exit = 0 ∨ printout.exit = 1
  exit_eq_zero_iff : printout.exit = 0 ↔ ∀ store ∈ stores, Faultless request store.current.buffer
  output : ∃ problems : Nat, printout.output.toList =
    stores.flatMap (fun store => linesOfStore request store ++ noticesOf request disk store) ++
      [toString problems ++ " diagnostics issued."]
  quiet : printout.exit = 0 → printout.complaints = #[] ∧
    printout.output.toList = stores.flatMap (linesOfStore request) ++ ["0 diagnostics issued."]

/-- What handling the database in this store prints, and how many problems it counts. -/
def handle (request : Request) (disk : Disk) (store : Store) : Progress × Nat :=
  processDatabase request disk (unread store ⟨request.strict, 0⟩)

/-- The problems counted in all databases. -/
def countAll (request : Request) (disk : Disk) (stores : List Store) : Nat :=
  stores.foldl (fun n store => n + (handle request disk store).2) 0

/-- A run handles its databases one by one, and prints what is printed of each in order. -/
theorem run_of_stores {stores : List Store} (hstores : request.stores? disk = some stores) :
    run request disk = ⟨if countAll request disk stores > 0 then 1 else 0,
      (stores.foldl (fun out store => out ++ (handle request disk store).1.output) #[]).push
        (toString (countAll request disk stores) ++ " diagnostics issued."),
      stores.foldl (fun out store => out ++ (handle request disk store).1.complaints) #[]⟩ := by
  have hopen := openAll_eq request disk
  rw [hstores] at hopen
  simp only [run, hopen.1, List.foldl_map, countAll, handle]
  rfl

/-- Each database is processed. -/
theorem processed_handle (hgames : ∀ n ∈ request.games, IsGameNumber n) {stores : List Store}
    (hstores : request.stores? disk = some stores) :
    ∀ store ∈ stores, Processed request disk store (handle request disk store) := by
  have hopen := openAll_eq request disk
  rw [hstores] at hopen
  exact fun store hstore => processDatabase_processed hgames (hopen.2 store hstore)

/-- Nothing is counted if nothing is counted for any database. -/
theorem countAll_eq_zero_iff {stores : List Store} :
    countAll request disk stores = 0 ↔ ∀ store ∈ stores, (handle request disk store).2 = 0 := by
  rw [countAll, foldl_add_eq_zero_iff]
  exact and_iff_right rfl

/-- A run goes through all databases. -/
theorem run_ran (hgames : ∀ n ∈ request.games, IsGameNumber n) {stores : List Store}
    (hstores : request.stores? disk = some stores) :
    Ran request disk stores (run request disk) := by
  -- Each store is processed on its own, so output and counts are put together.
  have hparts := processed_handle hgames hstores
  have houtput : stores.flatMap (fun store => (handle request disk store).1.output.toList) =
      stores.flatMap fun store => linesOfStore request store ++ noticesOf request disk store := by
    rw [List.flatMap_def, List.flatMap_def]
    exact congrArg List.flatten
      (List.map_congr_left fun store hstore => (hparts store hstore).output)
  have hexit : (run request disk).exit = 0 ↔ countAll request disk stores = 0 := by
    rw [run_of_stores hstores]
    simp only
    split <;> omega
  rw [run_of_stores hstores] at hexit ⊢
  -- There are notices of problems only, so without any the lines stand alone.
  refine ⟨?_, ?_, ?_, ?_⟩
  · simp only
    split
    · exact .inr rfl
    · exact .inl rfl
  · rw [hexit, countAll_eq_zero_iff]
    exact forall₂_congr fun store hstore => (hparts store hstore).count_eq_zero_iff
  · refine ⟨countAll request disk stores, ?_⟩
    rw [Array.toList_push, toList_foldl_append, houtput]
    rfl
  · intro hnone
    have hnone := hexit.1 hnone
    have hquiet := fun store hstore =>
      (hparts store hstore).quiet (countAll_eq_zero_iff.1 hnone store hstore)
    refine ⟨?_, ?_⟩
    · rw [← Array.toList_eq_nil_iff, toList_foldl_append]
      simpa using fun store hstore => (hquiet store hstore).2
    · -- Without a problem there are no notices between the lines.
      rw [Array.toList_push, toList_foldl_append, houtput, hnone]
      refine congrArg (· ++ _) (congrArg List.flatten (List.map_congr_left fun store hstore => ?_))
      rw [(hquiet store hstore).1, List.append_nil]

/-- The game of this number does not exist or has an unmatched parenthesis. -/
def Unreadable (request : Request) (buffer : Buffer) (n : Nat) : Prop :=
  buffer.fresh request.strict n = .ok none ∨
    ∃ problem, problem.IsUnmatched ∧ buffer.fresh request.strict n = .error (.fatal problem)

/-- A game that cannot be read afresh is unreadable. -/
theorem unreadable_of_fresh {buffer : Buffer} {n : Nat}
    (h : ∀ g, buffer.fresh request.strict n ≠ .ok (some g)) : Unreadable request buffer n := by
  cases n with
  | zero => exact .inl rfl
  | succ i =>
    cases hentry : (buffer.text.games request.strict)[i]? with
    | none => exact .inl (by simp only [Buffer.fresh, hentry])
    | some entry =>
      have hfresh := Buffer.fresh_of_game hentry
      cases hfind : (Game.read buffer request.strict (i + 1) entry).problems.find?
          Problem.isCritical with
      | none =>
        rw [hfind] at hfresh
        exact absurd hfresh (h _)
      | some problem =>
        rw [hfind] at hfresh
        exact .inr ⟨problem, Game.isUnmatched_of_isCritical (List.mem_of_find?_eq_some hfind)
          (List.find?_some hfind), hfresh⟩

/-- What is made of one element stands in what is made of all. -/
theorem infix_flatMap {α β : Type} {a : α} {l : List α} (h : a ∈ l) (f : α → List β) :
    f a <:+: l.flatMap f := by
  obtain ⟨before, after, rfl⟩ := List.append_of_mem h
  rw [List.flatMap_append, List.flatMap_cons, ← List.append_assoc]
  exact ⟨_, _, rfl⟩

/-- The lines of a game asked for stand together among the lines of all databases. -/
theorem linesOfGame_infix {stores : List Store} {n : Nat} (hstore : store ∈ stores)
    (hn : n ∈ wanted request store.current.buffer) (notices : Store → List String)
    (last : List String) :
    linesOfGame request store n <:+:
      stores.flatMap (fun store => linesOfStore request store ++ notices store) ++ last := by
  have hgame : linesOfGame request store n <:+: linesOfStore request store :=
    (infix_flatMap hn (linesOfGame request store)).trans (List.suffix_append ..).isInfix
  have hall := infix_flatMap hstore fun store => linesOfStore request store ++ notices store
  exact ((hgame.trans (List.prefix_append ..).isInfix).trans hall).trans
    (List.prefix_append ..).isInfix

/-- The exit status can be trusted. A run exits with 0 exactly if all its databases can be opened
and nothing is wrong with any of them: cataloguing meets no problem, every game asked for exists and
neither reading nor checking it meets a problem. It then has printed nothing but the lines of every
such game. Every game asked for that can be read is printed, its title and the tags, moves and
verdict that were asked for (`Shows`). A game that is not printed does not exist or has an unmatched
parenthesis, and makes the exit status 1, however often its problem was reported before. -/
theorem exit_can_be_trusted {args : List String} {request : Request}
    (h : Invocation.ofArguments args = .run request) (disk : Disk) :
    let printout := (Invocation.ofArguments args).printout disk
    (printout.exit = 0 ∨ printout.exit = 1) ∧
    (request.stores? disk = none → printout.exit = 1) ∧
    ∀ stores, request.stores? disk = some stores →
      (printout.exit = 0 ↔ ∀ store ∈ stores, Faultless request store.current.buffer) ∧
      (∃ problems : Nat, printout.output.toList =
        stores.flatMap (fun store => linesOfStore request store ++ noticesOf request disk store) ++
          [toString problems ++ " diagnostics issued."]) ∧
      (printout.exit = 0 → printout.complaints = #[] ∧
        printout.output.toList =
          stores.flatMap (linesOfStore request) ++ ["0 diagnostics issued."]) ∧
      ∀ store ∈ stores, ∀ n ∈ wanted request store.current.buffer,
        (∃ g, store.current.buffer.fresh request.strict n = .ok (some g) ∧
            Shows request g (linesOfGame request store n) ∧
            linesOfGame request store n <:+: printout.output.toList) ∨
          Unreadable request store.current.buffer n ∧ printout.exit = 1 := by
  have hgames := isGameNumber_of_arguments h
  rw [h]
  simp only [Invocation.printout]
  have hopen := openAll_eq request disk
  -- A database that cannot be opened is the one failure of a whole run.
  cases hstores : request.stores? disk with
  | none =>
    rw [hstores] at hopen
    obtain ⟨failure, hfailure⟩ := hopen
    have hexit : (run request disk).exit = 1 := by
      simp only [run, hfailure]
    exact ⟨.inr hexit, fun _ => hexit, fun stores h => absurd h (Option.some_ne_none stores).symm⟩
  | some stores =>
    obtain ⟨hexit, hzero, houtput, hquiet⟩ := run_ran hgames hstores
    refine ⟨hexit, fun h => absurd h (Option.some_ne_none stores), ?_⟩
    rintro _ ⟨⟩
    refine ⟨hzero, houtput, hquiet, fun store hstore n hn => ?_⟩
    -- Either the game is read, and its lines stand in the output, or it counts as a problem.
    by_cases hread : ∃ g, store.current.buffer.fresh request.strict n = .ok (some g)
    · obtain ⟨g, hg⟩ := hread
      obtain ⟨problems, hlines⟩ := houtput
      refine .inl ⟨g, hg, linesOfGame_shows hg, ?_⟩
      rw [hlines]
      exact linesOfGame_infix hstore hn ..
    · refine .inr ⟨unreadable_of_fresh fun g hg => hread ⟨g, hg⟩, hexit.resolve_left ?_⟩
      intro hnone
      obtain ⟨g, hg, -⟩ := (hzero.1 hnone store hstore).read n hn
      exact hread ⟨g, hg⟩

/-- A database whose only game has a parenthesis that is never closed, asked for twice: the second
read reports nothing, and neither prints anything. A database with nothing wrong in it, whose game
is asked for with its tags and moves: the run exits with 0 and has printed them. -/
theorem exit_can_be_trusted_of_repeated :
    let repeated := ["-g", "1", "-g", "1", "--text", "db", "[A \"b\"]\ne4 ("]
    let sound := ["--tags", "--moves", "--text", "db", "[White \"A\"]\ne4 e5 *"]
    (∃ request, Invocation.ofArguments repeated = .run request ∧
        ((Invocation.ofArguments repeated).printout (.error "")).exit = 1) ∧
      ∃ request, Invocation.ofArguments sound = .run request ∧
        ((Invocation.ofArguments sound).printout (.error "")).exit = 0 ∧
        ((Invocation.ofArguments sound).printout (.error "")).output.toList =
          ["Game 1: A - ? *", "  [White \"A\"]", "  e4 e5", "  (1 lines)",
            "0 diagnostics issued."] := by
  intro repeated sound
  constructor
  · let content := "[A \"b\"]\ne4 ("
    have hargs : Invocation.ofArguments repeated =
        .run ⟨none, [("db", content)], false, [1, 1], false, false, .brief, false, false, 1⟩ := rfl
    refine ⟨_, hargs, ?_⟩
    have hread : ((Buffer.mk 0 (.ofBytes content.toUTF8)).fresh false 1).toOption.join.isNone := by
      decide +kernel
    obtain ⟨-, -, hstores⟩ := exit_can_be_trusted hargs (.error "")
    -- The game has an open parenthesis, so nothing is read.
    obtain ⟨-, -, -, hgames⟩ := hstores _ rfl
    rcases hgames (.ofBytes "db" content.toUTF8) List.mem_cons_self 1 List.mem_cons_self with
      ⟨g, hg, -⟩ | ⟨-, hexit⟩
    · have hfresh : (Buffer.mk 0 (.ofBytes content.toUTF8)).fresh false 1 = .ok (some g) := hg
      rw [hfresh] at hread
      cases hread
    · exact hexit
  · let content := "[White \"A\"]\ne4 e5 *"
    let request : Request :=
      ⟨none, [("db", content)], false, [], true, true, .brief, false, false, 1⟩
    have hargs : Invocation.ofArguments sound = .run request := rfl
    refine ⟨request, hargs, ?_⟩
    obtain ⟨-, -, hstores⟩ := exit_can_be_trusted hargs (.error "")
    -- Both tag and moves are printed, and nothing is wrong with them.
    obtain ⟨hexit, -, hquiet, -⟩ := hstores [.ofBytes "db" content.toUTF8] rfl
    have hwanted : wanted request ⟨0, .ofBytes content.toUTF8⟩ = [1] := by decide +kernel
    have hread : ((Buffer.mk 0 (.ofBytes content.toUTF8)).fresh false 1).toOption.join.map
        Game.problems = some [] := by
      decide +kernel
    have hfaultless : Faultless request ⟨0, .ofBytes content.toUTF8⟩ := by
      refine ⟨by decide +kernel, fun n hn => ?_⟩
      rw [hwanted, List.mem_singleton] at hn
      subst hn
      cases hfresh : (Buffer.mk 0 (.ofBytes content.toUTF8)).fresh false 1 with
      | error failure =>
        rw [hfresh] at hread
        cases hread
      | ok game? =>
        rw [hfresh] at hread
        cases game? with
        | none => cases hread
        | some g => exact ⟨g, hfresh, Option.some.inj hread⟩
    have hzero := hexit.2 fun store hstore => List.mem_singleton.1 hstore ▸ hfaultless
    have hlines : linesOfStore request (.ofBytes "db" content.toUTF8) =
        ["Game 1: A - ? *", "  [White \"A\"]", "  e4 e5", "  (1 lines)"] := by
      decide +kernel
    refine ⟨hzero, ?_⟩
    rw [(hquiet hzero).2, List.flatMap_singleton, hlines]
    rfl

end Scorebook.Dump
