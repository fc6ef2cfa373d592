import Scorebook.Proofs.Checksum
import Scorebook.Proofs.Database.Reads
import Scorebook.Proofs.Database.Sessions

/-!
# Entries that are out of date

A catalogue may be older than the bytes a game is read from. A read notices if the catalogued place
does not lie in the text any more or does not hold the header that was there, and fails for good
then, whatever a handler says. The checksum of a header cannot tell it from every other one, but it
does tell it from one with a single byte changed.
-/

namespace Scorebook.Database

variable {db seen : Database} {disk : Disk} {n : Nat} {entry : Entry} {problem : Problem}

/-! ## Stale entries -/

/-- That an entry is stale is critical. -/
theorem isCritical_of_stale? {t : Text} (h : stale? t n entry = some problem) :
    problem.isCritical = true := by
  unfold stale? at h
  split at h
  · cases h
    rfl
  · split at h
    · cases h
      rfl
    · cases h

/-- Giving up on a game for a critical problem fails with that problem, heard or not. -/
theorem reject_fst (db : Database) (n : Nat) (h : problem.isCritical = true) :
    (db.reject n problem).1 = .fatal problem := by
  simp only [reject, Reporter.report_of_isCritical db.reporter db.buffer h, Option.getD_some]

/-- Only games that are catalogued have an entry. -/
theorem le_size_of_entry {c : Catalogue} (h : c.entry? n = some entry) :
    n ≠ 0 ∧ n ≤ c.entries.size := by
  cases n with
  | zero => cases h
  | succ i => exact ⟨Nat.succ_ne_zero i, (Array.getElem?_eq_some_iff.1 h).1⟩

/-- A game that is catalogued already is not looked for. -/
theorem indexTo_of_le (h : n ≤ db.catalogue.entries.size) :
    db.indexTo n = (.ok db.catalogue.entries.size, db) := by
  rw [indexTo, Catalogue.ensure_of_done (.inr h)]

/-- A read fails if what the catalogue says of the game is out of date. -/
theorem readGame_of_stale (hseen : db.refresh disk = (.ok (), seen))
    (hentry : seen.catalogue.entry? n = some entry)
    (hstale : stale? seen.buffer.text n entry = some problem) :
    db.readGame disk n = (.error (.fatal problem), (seen.reject n problem).2) := by
  obtain ⟨hn, hle⟩ := le_size_of_entry hentry
  have hfatal := seen.reject_fst n (isCritical_of_stale? hstale)
  simp only [readGame, if_neg hn, hseen, indexTo_of_le hle, if_neg (Nat.not_lt.2 hle), hentry,
    hstale, hfatal]

/-- A game that is catalogued and not out of date is read at its place. -/
theorem readGame_of_good (hseen : db.refresh disk = (.ok (), seen))
    (hentry : seen.catalogue.entry? n = some entry)
    (hgood : stale? seen.buffer.text n entry = none) :
    db.readGame disk n = ((seen.readAt n entry).1.map some, (seen.readAt n entry).2) := by
  obtain ⟨hn, hle⟩ := le_size_of_entry hentry
  simp only [readGame, if_neg hn, hseen, indexTo_of_le hle, if_neg (Nat.not_lt.2 hle), hentry,
    hgood]
  rcases seen.readAt n entry with ⟨answer, after⟩
  cases answer <;> rfl

/-! ## One changed byte -/

/-- In a text of the same length a header that was changed is found out by its checksum. -/
theorem stale?_of_changed {t u : Text} {strict : Bool} (hentry : entry.IsOf t strict)
    (hsize : u.size = t.size) (hchanged : u.checksum entry.tags ≠ t.checksum entry.tags) :
    stale? u n entry = some (.hashMismatch n entry.tags) := by
  obtain ⟨next, hlies⟩ := hentry.lies
  have htags := hlies.tags_le
  have hmovetext := hlies.movetext_le
  have hstop := hlies.stop_le
  have hnext := hlies.next_le
  rw [stale?, if_neg (by omega), if_pos (by rwa [hlies.checksum_eq])]

/-- A single byte that was changed in a header is noticed. The checksums of two strings of the same
length that differ in one place are different. So if a database holds an entry made of the text it
looks at, and its file is replaced by one of the same length and another modification time which
differs from that text in one byte of the header, and as it may behind the header, then reading the
game fails for good, whoever listens. -/
theorem changed_byte_noticed :
    (∀ as bs : List UInt8, as.length = bs.length → (∃! i : Nat, as[i]? ≠ bs[i]?) →
      Checksum.ofBytes as ≠ Checksum.ofBytes bs) ∧
    ∀ (db : Database) (n : Nat) (entry : Entry) (file : FileState),
      db.store.inFile = true → db.catalogue.entry? n = some entry →
      entry.IsOf db.buffer.text db.options.strict →
      file.bytes.size = db.buffer.text.size → db.store.current.modified ≠ some file.modified →
      (∃! i : Nat, entry.tags.start ≤ i ∧ i < entry.tags.stop ∧
        db.buffer.text[i]? ≠ (Text.ofBytes file.bytes)[i]?) →
      (db.readGame (.ok file) n).1 = .error (.fatal (.hashMismatch n entry.tags)) := by
  refine ⟨fun as bs hlength h => Checksum.ofBytes_ne_of_existsUnique hlength h, ?_⟩
  intro db n entry file hfile hentry hisOf hsize hmodified hbyte
  have hchanged := (Text.checksum_ne (u := .ofBytes file.bytes) hsize.symm hbyte).symm
  have hstale := stale?_of_changed (n := n) hisOf hsize hchanged
  have hseen := refresh_of_modified hfile hmodified
  rw [if_neg (by omega)] at hseen
  rw [readGame_of_stale hseen hentry hstale]

/-- One game, `[A "b"]` with `e4`. -/
def untouched : ByteArray :=
  ⟨#[0x5b, 0x41, 0x20, 0x22, 0x62, 0x22, 0x5d, 0x0a, 0x65, 0x34]⟩

/-- The same game with another value, `[A "c"]`. -/
def retouched : ByteArray :=
  ⟨#[0x5b, 0x41, 0x20, 0x22, 0x63, 0x22, 0x5d, 0x0a, 0x65, 0x34]⟩

/-- The new value is noticed. -/
theorem changed_byte_noticed_of_value :
    Checksum.ofBytes [0x62] ≠ Checksum.ofBytes [0x63] ∧
      (((unread (.ofFile "db.pgn" ⟨untouched, 1⟩) ⟨false, 0⟩).indexTo 1).2.readGame
        (.ok ⟨retouched, 2⟩) 1).1 = .error (.fatal (.hashMismatch 1 ⟨0, 7⟩)) := by
  refine ⟨changed_byte_noticed.1 _ _ rfl ⟨0, by decide, ?_⟩, ?_⟩
  · rintro (_ | i) hi
    · rfl
    · simp at hi
  · have hentry : ((unread (.ofFile "db.pgn" ⟨untouched, 1⟩) ⟨false, 0⟩).indexTo
        1).2.catalogue.entry? 1 = some ⟨1, ⟨0, 7⟩, ⟨8, 10⟩, 0xeceb78ac954ccdda, .valid⟩ := by
      decide +kernel
    refine changed_byte_noticed.2 _ 1 _ ⟨retouched, 2⟩ rfl hentry (.of_mem_games ?_) rfl
      (by decide) ⟨4, by decide +kernel, ?_⟩
    · show _ ∈ (Text.ofBytes untouched).games false
      decide +kernel
    · rintro i ⟨-, hi, hne⟩
      have hall : ∀ i, i < 7 → (Text.ofBytes untouched)[i]? ≠ (Text.ofBytes retouched)[i]? →
          i = 4 := by decide +kernel
      exact hall i hi hne

end Scorebook.Database
