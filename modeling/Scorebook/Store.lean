import Scorebook.Text.LineTable

/-!
# Where the bytes come from

A database is held in memory or kept in a file. Its bytes are looked at through a `Snapshot`, an
immutable copy that later changes of the file never touch: a scan or a game that holds one goes on
with what it saw. A file is looked at again when its modification time differs from the one of the
snapshot; each new snapshot has a buffer of its own, with the next key.
-/

namespace Scorebook

/-- A file as it is on disk. -/
structure FileState where
  bytes : ByteArray
  /-- The time of the last modification. -/
  modified : Nat

/-- What looking at a file gives: the file, or the reason it could not be read. -/
abbrev Disk := Except String FileState

/-- The bytes of a database at one moment. -/
structure Snapshot where
  buffer : Buffer
  /-- Is this a mapping of a file? Content held in memory is not, nor is an empty file. -/
  mapped : Bool
  /-- The modification time of the file when the snapshot was taken. -/
  modified : Option Nat

namespace Snapshot

/-- The content of a file, under a key of its own. -/
def ofFile (key : Nat) (file : FileState) : Snapshot :=
  ⟨⟨key, .ofBytes file.bytes⟩, file.bytes.size != 0, some file.modified⟩

/-- Content held in memory. -/
def ofBytes (bytes : ByteArray) : Snapshot :=
  ⟨⟨0, .ofBytes bytes⟩, false, none⟩

/-- The number of bytes. -/
def size (s : Snapshot) : Nat :=
  s.buffer.text.size

end Snapshot

/-- The source of a database's bytes. -/
structure Store where
  /-- The name problems are shown under. -/
  name : String
  /-- Is there a file behind it? -/
  inFile : Bool
  current : Snapshot

namespace Store

/-- A store of bytes in memory, which never changes. -/
def ofBytes (name : String) (bytes : ByteArray) : Store :=
  ⟨name, false, .ofBytes bytes⟩

/-- A store of a file. -/
def ofFile (name : String) (file : FileState) : Store :=
  ⟨name, true, .ofFile 0 file⟩

/-- Takes a new snapshot of a file that was modified since the last one. -/
def refresh (s : Store) (disk : Disk) : Except String Store :=
  if s.inFile then
    match disk with
    | .error reason => .error reason
    | .ok file =>
      if s.current.modified = some file.modified then .ok s
      else .ok { s with current := .ofFile (s.current.buffer.key + 1) file }
  else .ok s

end Store

end Scorebook
