import Scorebook.Gap
import Scorebook.Text.Decoding

/-!
# Headers

A game starts with tag pairs, `[Name "Value"]`. The parts of a pair may be apart by any gap; a
value stays on its line, and a backslash in it escapes a backslash or a quote. A malformed pair is
one problem and is passed over up to the end of its line. `Text.header` reads the pairs of one
game; cataloguing uses the extent it finds, reading a game uses the pairs as well.

`Text.opensTag` is the lookahead that tells a header from movetext: a bracket followed by something
shaped like a tag name and an opening quote. It looks at a limited stretch only, so a bracket that
opens no tag (`[%clk 1:00]`) stays part of the movetext.
-/

namespace Scorebook

/-- Where the parts of a tag pair lie. The value is what stands between the quotes, escapes in
place. -/
structure RawTag where
  name : Span
  value : Span
deriving DecidableEq, Repr

/-- The extent of a header and what was found in it. -/
structure Header where
  /-- From the first bracket to the end of the last tag pair. -/
  span : Span
  /-- The first byte after the tags that belongs to no gap. -/
  next : Nat
  /-- Where the movetext starts: comments behind the tags belong to it. -/
  movetext : Nat
  /-- The well-formed pairs, in order. -/
  tags : List RawTag
  /-- All problems, in order. -/
  problems : List Problem
deriving Repr

namespace Text

/-! ## The lookahead -/

/-- How far the lookahead sees. -/
def lookahead : Nat := 256

/-- The blanks allowed between the bracket, the name and the quote of a header. -/
def isInlineBlank (b : UInt8) : Bool :=
  b == Byte.space || b == Byte.tab

/-- Could a header start at `pos`? -/
def opensTag (t : Text) (pos : Nat) : Bool :=
  if t[pos]? = some Byte.openBracket then
    let seen := t.upTo (pos + lookahead)
    let name := seen.seek (!isInlineBlank ·) (pos + 1)
    let blank := seen.seek (!Byte.isName ·) name
    let quote := seen.seek (!isInlineBlank ·) blank
    name < blank && blank < quote && seen[quote]? == some Byte.quote
  else false

/-! ## One tag pair -/

/-- Steps over a gap inside a tag pair, where a comment that is not closed breaks the pair. -/
def gapInTag (t : Text) (pos : Nat) : Except Problem Nat :=
  match (t.gap pos).problem? with
  | some problem => .error problem
  | none => .ok (t.gap pos).stop

/-- A byte that a backslash in a value escapes. -/
def isEscapable (b : UInt8) : Bool :=
  b == Byte.backslash || b == Byte.quote

/-- The bytes that end a tag name that is not followed by a blank. -/
def endsTagName (b : UInt8) : Bool :=
  Byte.endsName b || b == Byte.quote || b == Byte.closeBracket || b == Byte.openBrace ||
    b == Byte.semicolon

/-- The first offset from `pos` on at which a value cannot continue: a quote that is not escaped, a
byte that no value may hold, or the end of the text. -/
def valueStop (t : Text) (pos : Nat) : Nat :=
  match h : t[pos]? with
  | none => pos
  | some b =>
    if b == Byte.backslash && t[pos + 1]?.any isEscapable then t.valueStop (pos + 2)
    else if b == Byte.quote || Byte.isForbidden b then pos
    else t.valueStop (pos + 1)
termination_by t.size - pos
decreasing_by all_goals have := lt_size_of_getElem? h; omega

/-- Reads the name of the tag pair whose bracket is at `start`: the name, and where its value should
open. A name that runs on in bytes no name may hold is at fault up to the end of that word. -/
def tagName (t : Text) (start : Nat) : Except Problem (Span × Nat) :=
  match t.gapInTag (start + 1) with
  | .error problem => .error problem
  | .ok pos =>
    -- The name is what name bytes there are, and it has to be all of its word.
    let stop := t.seek (!Byte.isName ·) pos
    let wordStop := t.seek endsTagName stop
    if stop = pos ∨ wordStop ≠ stop then
      .error (.fault .badTagName ⟨pos, min (max wordStop (pos + 1)) t.size⟩)
    else
      match t.gapInTag stop with
      | .error problem => .error problem
      | .ok quote => .ok (⟨pos, stop⟩, quote)

/-- Reads the value that should open at `quote`, in the tag pair whose bracket is at `start`. -/
def tagValue (t : Text) (start quote : Nat) : Except Problem Span :=
  if t[quote]? = some Byte.quote then
    let stop := t.valueStop (quote + 1)
    if t[stop]? = some Byte.quote then .ok ⟨quote + 1, stop⟩
    -- The line or the text ended before the value did.
    else if t[stop]?.all Byte.isLineBreak then .error (.fault .unclosedTagValue ⟨start, stop⟩)
    else .error (.fault .controlInTagValue ⟨stop, stop + 1⟩)
  else .error (.fault .missingTagValue ⟨quote, min (t.lineEnd quote) (quote + 1)⟩)

/-- Reads the tag pair whose bracket is at `start`: its parts and the offset past its end. -/
def tagPair (t : Text) (start : Nat) : Except Problem (RawTag × Nat) :=
  match t.tagName start with
  | .error problem => .error problem
  | .ok (name, quote) =>
    match t.tagValue start quote with
    | .error problem => .error problem
    | .ok value =>
      match t.gapInTag (value.stop + 1) with
      | .error problem => .error problem
      | .ok bracket =>
        if t[bracket]? = some Byte.closeBracket then .ok (⟨name, value⟩, bracket + 1)
        else .error (.fault .unclosedTag ⟨start, bracket⟩)

/-- The problems of the tabs in `[pos, stop)`. -/
def tabsBetween (t : Text) (stop pos : Nat) (tabs : Array Problem) : Array Problem :=
  if pos < stop then
    t.tabsBetween stop (pos + 1)
      (if t[pos]?.any (· == Byte.tab) then tabs.push (.fault .tabInTagValue ⟨pos, pos + 1⟩)
        else tabs)
  else tabs
termination_by stop - pos

/-- The tabs in the value of the tag pair whose bracket is at `start`, as far as a value was found
there at all. Only strict reading asks for them. -/
def tabsInTag (t : Text) (start : Nat) : List Problem :=
  match t.tagName start with
  | .error _ => []
  | .ok (_, quote) =>
    if t[quote]? = some Byte.quote then
      (t.tabsBetween (t.valueStop (quote + 1)) (quote + 1) #[]).toList
    else []

/-! ## Progress -/

/-- A value never ends in front of where it starts. -/
theorem le_valueStop (t : Text) (pos : Nat) : pos ≤ t.valueStop pos := by
  fun_induction valueStop t pos <;> omega

/-- A gap between the parts of a pair is passed if nothing in it is left open. -/
theorem gapInTag_eq_ok_iff {t : Text} {pos stop : Nat} :
    t.gapInTag pos = .ok stop ↔ (t.gap pos).problem? = none ∧ (t.gap pos).stop = stop := by
  unfold gapInTag
  split <;> simp_all

/-- A gap between the parts of a pair never goes back. -/
theorem le_of_gapInTag {t : Text} {pos stop : Nat} (h : t.gapInTag pos = .ok stop) :
    pos ≤ stop :=
  (gapInTag_eq_ok_iff.1 h).2 ▸ le_gap_stop t pos

/-- A gap between the parts of a pair ends in the text. -/
theorem le_size_of_gapInTag {t : Text} {pos stop : Nat} (hpos : pos ≤ t.size)
    (h : t.gapInTag pos = .ok stop) : stop ≤ t.size :=
  (gapInTag_eq_ok_iff.1 h).2 ▸ gap_stop_le hpos

/-- Behind a name that was read the scan is further on. -/
theorem lt_of_tagName {t : Text} {start quote : Nat} {name : Span}
    (hstart : start < t.size) (h : t.tagName start = .ok (name, quote)) : start < quote := by
  unfold tagName at h
  split at h
  · cases h
  · next pos hpos =>
    have hle := le_of_gapInTag hpos
    have hseek := le_seek (p := (!Byte.isName ·)) (le_size_of_gapInTag hstart hpos)
    simp only at h
    split at h
    · cases h
    · split at h
      · cases h
      · next q hq =>
        have := le_of_gapInTag hq
        cases h
        omega

/-- A value that was read starts behind its quote and runs up to what ends it. -/
theorem start_of_tagValue {t : Text} {start quote : Nat} {value : Span}
    (h : t.tagValue start quote = .ok value) :
    value = ⟨quote + 1, t.valueStop (quote + 1)⟩ := by
  unfold tagValue at h
  split at h
  · simp only at h
    split at h
    · cases h; rfl
    · split at h <;> cases h
  · cases h

/-- A tag pair ends behind its bracket. -/
theorem lt_of_tagPair {t : Text} {start next : Nat} {tag : RawTag}
    (hstart : start < t.size) (h : t.tagPair start = .ok (tag, next)) : start < next := by
  unfold tagPair at h
  split at h
  · cases h
  · next name quote hname =>
    have hquote := lt_of_tagName hstart hname
    split at h
    · cases h
    · next value hvalue =>
      have hstop : quote + 1 ≤ value.stop := by
        rw [start_of_tagValue hvalue]; exact le_valueStop t (quote + 1)
      split at h
      · cases h
      · next bracket hbracket =>
        have := le_of_gapInTag hbracket
        split at h
        · cases h; omega
        · cases h

/-! ## A whole header -/

/-- Reads tag pairs from `pos` on. `stop` is the end of the last pair before `pos`; `tags` and
`problems` are what was found before `pos`. -/
def headerFrom (t : Text) (strict : Bool) (start pos stop : Nat) (tags : Array RawTag)
    (problems : Array Problem) : Header :=
  if _h : t[pos]? = some Byte.openBracket then
    -- Tabs come before any problem of the pair they stand in.
    let problems := if strict then problems ++ t.tabsInTag pos else problems
    match _hpair : t.tagPair pos with
    | .ok (tag, next) =>
      let gap := t.gap next
      t.headerFrom strict start gap.stop next (tags.push tag) (problems ++ gap.problem?.toList)
    | .error problem =>
      -- The rest of the line cannot be trusted, but it still belongs to the header.
      let next := t.lineEnd pos
      let gap := t.gap next
      t.headerFrom strict start gap.stop next tags (problems ++ problem :: gap.problem?.toList)
  else
    ⟨⟨start, stop⟩, pos, (t.upTo pos).seek (!Byte.isBlank ·) stop, tags.toList, problems.toList⟩
termination_by t.size - pos
decreasing_by
  all_goals have hlt := lt_size_of_getElem? _h
  · have := lt_of_tagPair hlt _hpair
    have := le_gap_stop t next
    omega
  · have : pos < t.lineEnd pos := lt_lineEnd _h (by decide)
    have := le_gap_stop t (t.lineEnd pos)
    omega

/-- Reads the header whose first bracket is at `start`. -/
def header (t : Text) (strict : Bool) (start : Nat) : Header :=
  t.headerFrom strict start start start #[] #[]

/-- Reading pairs never goes back. -/
theorem le_headerFrom_next (t : Text) (strict : Bool) (start pos stop : Nat)
    (tags : Array RawTag) (problems : Array Problem) :
    pos ≤ (t.headerFrom strict start pos stop tags problems).next := by
  fun_induction headerFrom t strict start pos stop tags problems with
  | case1 pos _ _ _ h _ _ next hpair gap ih =>
    have := lt_of_tagPair (lt_size_of_getElem? h) hpair
    have : next ≤ gap.stop := le_gap_stop t next
    omega
  | case2 pos _ _ _ h _ _ _ next gap ih =>
    have : pos < next := lt_lineEnd h (by decide)
    have : next ≤ gap.stop := le_gap_stop t next
    omega
  | case3 => exact Nat.le_refl _

/-- A header ends behind its first bracket. -/
theorem lt_header_next {t : Text} {start : Nat} (strict : Bool)
    (h : t[start]? = some Byte.openBracket) : start < (t.header strict start).next := by
  unfold header headerFrom
  rw [dif_pos h]
  simp only
  split
  · next next hpair =>
    have := lt_of_tagPair (lt_size_of_getElem? h) hpair
    have := le_gap_stop t next
    exact Nat.lt_of_lt_of_le (by omega) (le_headerFrom_next ..)
  · have : start < t.lineEnd start := lt_lineEnd h (by decide)
    have := le_gap_stop t (t.lineEnd start)
    exact Nat.lt_of_lt_of_le (by omega) (le_headerFrom_next ..)

end Text

/-! ## Decoded tags -/

/-- Removes the escapes from a value. A backslash before any other byte stands for itself. -/
def unescape : List UInt8 → List UInt8
  | Byte.backslash :: Byte.backslash :: rest => Byte.backslash :: unescape rest
  | Byte.backslash :: Byte.quote :: rest => Byte.quote :: unescape rest
  | b :: rest => b :: unescape rest
  | [] => []

/-- A tag pair, decoded and free of escapes. -/
structure TagPair where
  name : String
  value : String
deriving DecidableEq, Repr, Inhabited

/-- The pair at these places of the text. -/
def RawTag.decode (t : Text) (tag : RawTag) : TagPair :=
  ⟨t.read tag.name, Scorebook.decode (unescape (t.word tag.value)).toByteArray⟩

end Scorebook
