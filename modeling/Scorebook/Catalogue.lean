import Scorebook.Header
import Scorebook.Reporter
import Scorebook.Text.Checksum

/-!
# The catalogue of games

The catalogue says where each game of a database lies. It is filled on demand: asking for game `n`
scans the text only as far as `n` games reach, from where the last scan stopped. The scan knows
just enough of the format to find the boundaries: tag pairs are read, movetext is stepped over one
stretch at a time without a look inside.

One step of the scan, `Text.nextItem`, depends on the text alone. `Catalogue.extendFrom` repeats it
and reports the problems of each step as it goes; a report that fails ends the scan, and what was
catalogued before stays.
-/

namespace Scorebook

/-- Where one game lies. -/
structure Entry where
  /-- The position of the game in the database, from one. -/
  ordinal : Nat
  /-- From the first bracket of the header to the end of the last tag pair. -/
  tags : Span
  /-- From the first token or comment behind the header to the end of the last token. -/
  movetext : Span
  /-- The checksum of the header when it was catalogued. -/
  checksum : UInt64
  /-- The first problem of the header. -/
  verdict : Verdict
deriving DecidableEq, Repr

/-! ## Scanning -/

/-- How far the movetext of a game reaches. -/
structure MovetextExtent where
  /-- The end of the last token. -/
  last : Nat
  /-- Where the next header starts, or the end of the text. -/
  next : Nat
  problems : List Problem

/-- What the scan comes upon. -/
inductive Item
  /-- The end of the text. -/
  | nothing
  /-- Text that belongs to no game; scanning can pick up again at `next`. -/
  | stray (next : Nat)
  /-- A game, of ordinal zero as yet, up to where the next may start. -/
  | game (entry : Entry) (next : Nat)

/-- Where the item ends, if there is one. -/
def Item.next? : Item → Option Nat
  | .nothing => none
  | .stray next | .game _ next => some next

namespace Text

/-- The bytes that end a stretch of movetext. A stretch is at least one byte long, so a bracket or
parenthesis that starts one is part of it. -/
def endsStretch (b : UInt8) : Bool :=
  Byte.isBlank b || b == Byte.openBrace || b == Byte.semicolon || b == Byte.openBracket ||
    b == Byte.openParen || b == Byte.closeParen

/-- Steps over movetext from `pos` on to the next header or the end of the text. `last` is the end
of the last stretch before `pos`. -/
def movetextFrom (t : Text) (pos last : Nat) (problems : Array Problem) : MovetextExtent :=
  let gap := t.gap pos
  let problems := problems ++ gap.problem?.toList
  if t.size ≤ gap.stop ∨ t.opensTag gap.stop then ⟨last, gap.stop, problems.toList⟩
  else
    let stop := t.seek endsStretch (gap.stop + 1)
    t.movetextFrom stop stop problems
termination_by t.size - pos
decreasing_by
  have : pos ≤ gap.stop := le_gap_stop t pos
  have : gap.stop + 1 ≤ t.seek endsStretch (gap.stop + 1) := le_seek (by omega)
  show t.size - t.seek endsStretch (gap.stop + 1) < t.size - pos
  omega

/-- Scans the game whose header starts at `start`. -/
def scanGame (t : Text) (strict : Bool) (start : Nat) : Entry × Nat × List Problem :=
  let header := t.header strict start
  let extent := t.movetextFrom header.next header.next #[]
  (⟨0, header.span, ⟨header.movetext, max extent.last header.movetext⟩, t.checksum header.span,
      Verdict.ofProblems header.problems⟩,
    extent.next, header.problems ++ extent.problems)

/-- The next bracket in the first column behind `pos`, where scanning can pick up again. -/
def resync (t : Text) (pos : Nat) : Nat :=
  if h : pos + 1 < t.size then
    if t[pos + 1] == Byte.openBracket && t.atLineStart (pos + 1) then pos + 1
    else t.resync (pos + 1)
  else t.size
termination_by t.size - pos

/-- What starts at `pos`, which lies in no gap, and the problems of it. -/
def itemAt (t : Text) (strict : Bool) (pos : Nat) : Item × List Problem :=
  match t[pos]? with
  | none => (.nothing, [])
  | some b =>
    if b = Byte.openBracket then
      let (entry, next, problems) := t.scanGame strict pos
      (.game entry next, problems)
    else
      let next := t.resync pos
      (.stray next, [.fault .unexpectedHeaderText ⟨pos, min (t.lineEnd pos) next⟩])

/-- What comes next from `pos` on, and the problems on the way to it and in it. -/
def nextItem (t : Text) (strict : Bool) (pos : Nat) : Item × List Problem :=
  let gap := t.gap pos
  let (item, problems) := t.itemAt strict gap.stop
  (item, gap.problem?.toList ++ problems)

/-! ## Progress -/

/-- A scan of movetext never goes back. -/
theorem le_movetextFrom_next (t : Text) (pos last : Nat) (problems : Array Problem) :
    pos ≤ (t.movetextFrom pos last problems).next := by
  fun_induction movetextFrom t pos last problems with
  | case1 pos => exact le_gap_stop t pos
  | case2 pos _ _ gap _ _ stop ih =>
    have : pos ≤ gap.stop := le_gap_stop t pos
    have : gap.stop + 1 ≤ stop := le_seek (by omega)
    omega

/-- A scan of a game moves on, at least behind the bracket it starts with. -/
theorem lt_scanGame_next {t : Text} {start : Nat} (strict : Bool)
    (h : t[start]? = some Byte.openBracket) : start < (t.scanGame strict start).2.1 :=
  Nat.lt_of_lt_of_le (lt_header_next strict h) (le_movetextFrom_next ..)

/-- Looking for the next game moves on. -/
theorem lt_resync {t : Text} {pos : Nat} (h : pos < t.size) : pos < t.resync pos := by
  fun_induction resync t pos <;> omega

/-- Whatever is found leaves the scan further on, which is why scanning ends. -/
theorem lt_of_next?_itemAt {t : Text} {strict : Bool} {pos next : Nat}
    (h : (t.itemAt strict pos).1.next? = some next) : pos < t.size ∧ pos < next := by
  unfold itemAt at h
  split at h
  · cases h
  · next b hb =>
    refine ⟨lt_size_of_getElem? hb, ?_⟩
    split at h
    · next hbracket =>
      cases h
      exact lt_scanGame_next strict (hbracket ▸ hb)
    · cases h
      exact lt_resync (lt_size_of_getElem? hb)

/-- Every item ends behind the place the scan for it started at. -/
theorem lt_of_next?_nextItem {t : Text} {strict : Bool} {pos next : Nat}
    (h : (t.nextItem strict pos).1.next? = some next) : pos < t.size ∧ pos < next := by
  have hitem : (t.itemAt strict (t.gap pos).stop).1.next? = some next := h
  have := lt_of_next?_itemAt hitem
  have := le_gap_stop t pos
  omega

end Text

/-! ## The catalogue -/

/-- The games found so far. -/
structure Catalogue where
  entries : Array Entry
  /-- Where to continue scanning: behind the last game. -/
  resume : Nat
  /-- Has the scan reached the end of the database? -/
  complete : Bool
deriving Repr

namespace Catalogue

/-- A catalogue of a database not looked at yet. -/
def empty : Catalogue := ⟨#[], 0, false⟩

/-- The number that asks for every game of a database. -/
def allGames : Nat := 0xffffffff

/-- The mark of UTF-8 text that a database may start with. -/
def byteOrderMark : List UInt8 := [0xef, 0xbb, 0xbf]

/-- Where a scan from `pos` really starts: a byte order mark at the very beginning is stepped
over. -/
def scanStart (t : Text) (pos : Nat) : Nat :=
  if pos = 0 ∧ t.holdsAt 0 byteOrderMark then byteOrderMark.length else pos

/-- Adds a game that was found behind all others. -/
def add (c : Catalogue) (entry : Entry) (next : Nat) : Catalogue :=
  { c with entries := c.entries.push { entry with ordinal := c.entries.size + 1 }, resume := next }

/-- The game of this number, counting from one. -/
def entry? (c : Catalogue) (n : Nat) : Option Entry :=
  match n with
  | 0 => none
  | i + 1 => c.entries[i]?

/-- Scans from `pos` on until `target` games are catalogued, the text ends or a report fails. -/
def extendFrom (strict : Bool) (buffer : Buffer) (target pos : Nat) (c : Catalogue)
    (r : Reporter) : Option Failure × Catalogue × Reporter :=
  if c.entries.size < target then
    match _hitem : buffer.text.nextItem strict pos with
    | (.nothing, problems) =>
      match r.reportAll buffer problems with
      | (some failure, r) => (some failure, c, r)
      | (none, r) => (none, { c with complete := true }, r)
    | (.stray next, problems) =>
      match r.reportAll buffer problems with
      -- Stray text does not move the place to resume at, so it is met again after a failure.
      | (some failure, r) => (some failure, c, r)
      | (none, r) => extendFrom strict buffer target next c r
    | (.game entry next, problems) =>
      match r.reportAll buffer problems with
      -- A game joins the catalogue only once every report of it was accepted.
      | (some failure, r) => (some failure, c, r)
      | (none, r) => extendFrom strict buffer target next (c.add entry next) r
  else (none, c, r)
termination_by buffer.text.size - pos
decreasing_by
  all_goals
    have hnext : (buffer.text.nextItem strict pos).1.next? = some next := by rw [_hitem]; rfl
    have := Text.lt_of_next?_nextItem hnext
    omega

/-- Catalogues at least `target` games, or all there are, and answers how many are catalogued. -/
def ensure (c : Catalogue) (strict : Bool) (buffer : Buffer) (target : Nat) (r : Reporter) :
    Except Failure Nat × Catalogue × Reporter :=
  if c.complete ∨ target ≤ c.entries.size then (.ok c.entries.size, c, r)
  else
    match extendFrom strict buffer target (scanStart buffer.text c.resume) c r with
    | (some failure, c, r) => (.error failure, c, r)
    | (none, c, r) => (.ok c.entries.size, c, r)

/-- Forgets game `n` and all behind it; the next scan starts at its header. -/
def invalidateFrom (c : Catalogue) (n : Nat) : Catalogue :=
  match c.entries[n - 1]? with
  | some entry => ⟨c.entries.extract 0 (n - 1), entry.tags.start, false⟩
  | none => c

/-- Lets the scan go on past the old end of a database that has grown. The last game reached the
old end, so it is forgotten and scanned again. -/
def reopen (c : Catalogue) : Catalogue :=
  if c.complete then
    match c.entries.back? with
    | some last => ⟨c.entries.pop, last.tags.start, false⟩
    | none => { c with complete := false }
  else c

end Catalogue

end Scorebook
