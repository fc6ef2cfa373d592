import Scorebook.Proofs.Catalogue.Moving
import Scorebook.Proofs.Catalogue.Pieces
import Scorebook.Proofs.Strictness.Sessions

/-!
# Advice in lines that are too wide

Behind the last column that 32 bits can hold all offsets of a line are in one place
(`LineTable.placeAt_of_wide`), so a problem there is taken for a repetition of any other of its
kind. Strict reading finds more of the same kind: a tab in the value of a tag pair is reported as
the control byte in the next value would be, and the control byte is not heard of any more. A game
behind enough blanks in one line shows this (`Database.delivered_indented`).
-/

namespace Scorebook

/-! ## Places in wide lines -/

namespace LineTable

/-- Behind the last column all columns are the last one. -/
theorem column_of_ge {distance : Nat} (h : 0x100000000 ≤ distance) :
    column distance = 0xffffffff := by
  rw [column, clip, if_neg (Nat.not_lt.2 h)]
  rfl

/-- All offsets of the first line that are too far into it are in its last column. -/
theorem placeAt_of_wide {t : Text} {offset : Nat} (hfeeds : t.feeds 0 offset = 0)
    (h : 0x100000000 ≤ offset) : placeAt t offset = ⟨1, 0xffffffff⟩ := by
  have hline : (placeAt t offset).line = 1 := by
    rw [placeAt_line]
    exact congrArg (· + 1) hfeeds
  have hstart : t.lineStart offset = 0 :=
    (Text.lineStart_eq_of_feeds (Nat.zero_le offset) hfeeds).resolve_right (by omega)
  have hcolumn : (placeAt t offset).column = 0xffffffff := by
    rw [placeAt, hstart]
    exact column_of_ge h
  rw [← hline, ← hcolumn]

end LineTable

/-- What lies there leaves a mark that tells nothing but what kind of problem it is. -/
theorem Problem.mark_of_wide {t : Text} {p : Problem} {span : Span} (hspan : p.span? = some span)
    (hsize : span.start ≤ t.size) (hfeeds : t.feeds 0 span.start = 0)
    (h : 0x100000000 ≤ span.start) : p.mark t = ⟨p.verdict, ⟨1, 0xffffffff⟩⟩ := by
  rw [mark, place, hspan]
  simp only [Nat.min_eq_left hsize, LineTable.placeAt_of_wide hfeeds h]

/-! ## A text behind blanks -/

/-- These bytes behind `n` blanks. -/
def indented (n : Nat) (bytes : List UInt8) : ByteArray :=
  (List.replicate n Byte.space ++ bytes).toByteArray

namespace Text

variable {n : Nat} {bytes : List UInt8}

/-- The indentation is made of blanks. -/
theorem getElem?_indented_of_lt {i : Nat} (h : i < n) :
    (ofBytes (indented n bytes))[i]? = some Byte.space := by
  rw [indented, getElem?_ofBytes, List.getElem?_append_left (by rwa [List.length_replicate]),
    List.getElem?_replicate, if_pos h]

/-- A text that is indented is the text, moved. -/
theorem moved_indented (n : Nat) (hescape : bytes.head? ≠ some Byte.percent) :
    Moved (ofBytes bytes.toByteArray) (ofBytes (indented n bytes)) n where
  size_eq := by
    rw [indented, size_ofBytes, size_ofBytes, List.size_toByteArray, List.size_toByteArray,
      List.length_append, List.length_replicate, Nat.add_comm]
  getElem?_eq i := by
    rw [indented, getElem?_ofBytes, getElem?_ofBytes, List.getElem?_append_right (by simp),
      List.length_replicate, Nat.add_sub_cancel]
  atLineStart_of_percent hpercent := by
    rw [getElem?_ofBytes, ← List.head?_eq_getElem?] at hpercent
    exact absurd hpercent hescape

/-- A scan finds behind the blanks what it finds in the bytes by themselves. -/
theorem nextItem_indented (strict : Bool) (n : Nat) (hescape : bytes.head? ≠ some Byte.percent) :
    (ofBytes (indented n bytes)).nextItem strict 0 =
      (((ofBytes bytes.toByteArray).nextItem strict 0).1.moved n,
        ((ofBytes bytes.toByteArray).nextItem strict 0).2.map (Problem.moved n)) := by
  have hblanks : (ofBytes (indented n bytes)).gap 0 = (ofBytes (indented n bytes)).gap n := by
    refine gap_of_blanks (Nat.zero_le n) fun i _ hi => ?_
    rw [getElem?_indented_of_lt hi]
    rfl
  rw [← (moved_indented n hescape).nextItem strict 0, Nat.zero_add, nextItem, nextItem, hblanks]

/-- Up to the first line feed behind the blanks all is one line. -/
theorem feeds_indented {k : Nat} (h : Byte.newline ∉ bytes.take k) :
    (ofBytes (indented n bytes)).feeds 0 (n + k) = 0 := by
  have htake : (List.replicate n Byte.space ++ bytes).take (n + k) =
      List.replicate n Byte.space ++ bytes.take k := by
    rw [List.take_append, List.length_replicate, List.take_replicate, Nat.add_sub_cancel_left,
      Nat.min_eq_right (Nat.le_add_right n k)]
  rw [feeds, indented, word_ofBytes, htake, List.count_append, List.count_eq_zero.2 h,
    List.count_replicate]
  rfl

end Text

/-! ## Two reports in one place -/

namespace Reporter

variable {r : Reporter} {t : Text} {buffer : Buffer} {p q : Problem}

theorem reportAll_singleton (r : Reporter) (buffer : Buffer) (p : Problem) :
    (r.reportAll buffer [p]).2 = (r.report buffer p).2 := by
  rw [reportAll]
  generalize r.report buffer p = result
  obtain ⟨answer, r'⟩ := result
  cases answer <;> rfl

/-- The first report of a problem is passed on. -/
theorem Attends.delivered_of_fresh (hr : r.Attends t) (hbuffer : buffer.text = t)
    (hfresh : ¬ r.Knows t p) :
    (r.report buffer p).2.delivered = r.delivered.push (reportOf t p) := by
  cases hr.hears hbuffer p with
  | known hknows => exact absurd hknows hfresh
  | passed _ _ hdelivered => exact hdelivered

/-- Of two problems that leave the same mark only the first is passed on. -/
theorem Attends.delivered_of_mark_eq (hr : r.Attends t) (hbuffer : buffer.text = t)
    (hfresh : ¬ r.Knows t p) (hmark : q.mark t = p.mark t)
    (haccepted : (r.report buffer p).1 = none) :
    (r.reportAll buffer [p, q]).2.delivered = r.delivered.push (reportOf t p) := by
  obtain ⟨hpassed, hknows⟩ := report_passed hr hbuffer p
  rw [reportAll_of_accepted haccepted, reportAll_singleton,
    ← hr.delivered_of_fresh hbuffer hfresh]
  cases hpassed.attends.hears hbuffer q with
  | known _ _ hdelivered => exact hdelivered
  | passed hunknown =>
    rw [Knows, hmark] at hunknown
    exact absurd hknows hunknown

end Reporter

/-! ## The two sessions -/

namespace Database

/-- A database just opened for somebody who accepts every report. -/
def welcomed (bytes : ByteArray) (strict : Bool) : Database :=
  (unread (.ofBytes "one.pgn" bytes) ⟨strict, 0⟩).setHandler (some ⟨fun _ _ => true⟩)

/-- Cataloguing one game reports its problems and no others. -/
theorem reporter_indexTo_one {bytes : ByteArray} {strict : Bool} {entry : Entry} {next : Nat}
    {problems : List Problem}
    (hmark : (Text.ofBytes bytes).holdsAt 0 Catalogue.byteOrderMark = false)
    (hitem : (Text.ofBytes bytes).nextItem strict 0 = (.game entry next, problems))
    (haccepted : ((welcomed bytes strict).reporter.reportAll
      (welcomed bytes strict).buffer problems).1 = none) :
    ((welcomed bytes strict).indexTo 1).2.reporter =
      ((welcomed bytes strict).reporter.reportAll (welcomed bytes strict).buffer problems).2 := by
  -- A blank is no byte-order mark and the catalogue is empty, so the scan begins at 0.
  have hstart : Catalogue.scanStart (Text.ofBytes bytes) 0 = 0 := by
    rw [Catalogue.scanStart, if_neg (by simp [hmark])]
  have hopen : ¬ (Catalogue.empty.complete = true ∨ 1 ≤ Catalogue.empty.entries.size) := by
    simp [Catalogue.empty]
  have hscan : Catalogue.extendFrom strict (welcomed bytes strict).buffer 1 0 .empty
      (welcomed bytes strict).reporter = _ := Catalogue.extendFrom_of_game Nat.one_pos hitem
  rw [← Prod.eta ((welcomed bytes strict).reporter.reportAll (welcomed bytes strict).buffer
    problems), haccepted] at hscan
  show (Catalogue.ensure .empty strict (welcomed bytes strict).buffer 1
    (welcomed bytes strict).reporter).2.2 = _
  rw [Catalogue.ensure_of_open hopen]
  show (Catalogue.extendFrom strict (welcomed bytes strict).buffer 1
    (Catalogue.scanStart (Text.ofBytes bytes) 0) .empty (welcomed bytes strict).reporter).2.2 = _
  rw [hstart, hscan]
  dsimp only
  rw [Catalogue.extendFrom_of_ge (Nat.le_refl 1)]

/-- A tag pair with a tab in its value, one with a control byte in its value, and the movetext
`e4 *`. -/
def tabAndControl : List UInt8 :=
  [0x5b, 0x41, 0x20, 0x22, 0x09, 0x22, 0x5d, 0x5b, 0x42, 0x20, 0x22, 0x01, 0x22, 0x5d, 0x0a, 0x65,
    0x34, 0x20, 0x2a, 0x0a]

/-- The problems of that game, with the tab and without. -/
theorem nextItem_tabAndControl (strict : Bool) :
    ∃ entry next, (Text.ofBytes tabAndControl.toByteArray).nextItem strict 0 =
      (.game entry next,
        (if strict then [.fault .tabInTagValue ⟨4, 5⟩] else []) ++
          [.fault .controlInTagValue ⟨11, 12⟩]) := by
  have hopening : (Text.ofBytes tabAndControl.toByteArray)[0]? = some Byte.openBracket := by
    decide +kernel
  have hproblems : ((Text.ofBytes tabAndControl.toByteArray).scanGame strict 0).2.2 =
      (if strict then [.fault .tabInTagValue ⟨4, 5⟩] else []) ++
        [.fault .controlInTagValue ⟨11, 12⟩] := by
    cases strict <;> decide +kernel
  exact ⟨_, _, by rw [Text.nextItem_of_openBracket strict hopening, hproblems]⟩

/-- The number of bytes of the sample behind its indentation. -/
theorem size_indented_tabAndControl (n : Nat) :
    (Text.ofBytes (indented n tabAndControl)).size = 20 + n :=
  (Text.moved_indented n (by decide)).size_eq

/-- Both problems are in the first line of the text and too far into it for its columns. -/
theorem mark_tabAndControl {n : Nat} (hwide : 0x100000000 ≤ n) (kind : Fault) {k : Nat}
    (hk : k < 14) (stop : Nat) :
    (Problem.fault kind ⟨k + n, stop⟩).mark (.ofBytes (indented n tabAndControl)) =
      ⟨(Problem.fault kind ⟨k + n, stop⟩).verdict, ⟨1, 0xffffffff⟩⟩ := by
  have hsize := size_indented_tabAndControl n
  have hline : Byte.newline ∉ tabAndControl.take 14 := by decide
  refine Problem.mark_of_wide rfl (by dsimp only; omega) ?_ (by dsimp only; omega)
  rw [Nat.add_comm]
  exact Text.feeds_indented fun hmem =>
    hline (List.take_subset_take_left _ (Nat.le_of_lt hk) hmem)

/-- Behind enough blanks the tab is all that the strict session is told of, and the control byte all
that the other one is. -/
theorem delivered_indented {n : Nat} (hwide : 0x100000000 ≤ n) (strict : Bool) :
    ((welcomed (indented n tabAndControl) strict).indexTo 1).2.reporter.delivered.toList =
      [Reporter.reportOf (.ofBytes (indented n tabAndControl))
        (if strict then .fault .tabInTagValue ⟨4 + n, 5 + n⟩
          else .fault .controlInTagValue ⟨11 + n, 12 + n⟩)] := by
  -- The first byte is a blank, so no mark is skipped.
  have hunmarked :
      (Text.ofBytes (indented n tabAndControl)).holdsAt 0 Catalogue.byteOrderMark = false := by
    rw [Catalogue.byteOrderMark, Text.holdsAt, Text.getElem?_indented_of_lt (by omega)]
    rfl
  obtain ⟨entry, next, hitem⟩ := nextItem_tabAndControl strict
  have hscan := Text.nextItem_indented strict n
    (show tabAndControl.head? ≠ some Byte.percent by decide)
  rw [hitem] at hscan
  have hrecoverable := Text.recoverable_nextItem (.ofBytes (indented n tabAndControl)) strict 0
  -- All problems are recoverable, so the reporter hears each of them.
  rw [hscan] at hrecoverable
  have hattends : (welcomed (indented n tabAndControl) strict).reporter.Attends
      (.ofBytes (indented n tabAndControl)) := ⟨rfl, .empty _⟩
  have hobliging : (welcomed (indented n tabAndControl) strict).reporter.Obliging := by
    rintro _ ⟨rfl⟩
    exact fun _ _ => rfl
  have hfresh (p : Problem) : ¬ (welcomed (indented n tabAndControl) strict).reporter.Knows
      (.ofBytes (indented n tabAndControl)) p := Std.HashSet.not_mem_empty
  rw [reporter_indexTo_one hunmarked hscan
    (hobliging.yielding.reportAll_of_recoverable _ hrecoverable)]
  have hbuffer : (welcomed (indented n tabAndControl) strict).buffer.text =
      .ofBytes (indented n tabAndControl) := rfl
  cases strict with
  | false =>
    show ((welcomed (indented n tabAndControl) false).reporter.reportAll _
      [.fault .controlInTagValue ⟨11 + n, 12 + n⟩]).2.delivered.toList = _
    rw [Reporter.reportAll_singleton, hattends.delivered_of_fresh hbuffer (hfresh _)]
    rfl
  | true =>
    -- Both problems lie too far into the line for their columns to differ.
    have hmark : (Problem.fault .controlInTagValue ⟨11 + n, 12 + n⟩).mark
          (.ofBytes (indented n tabAndControl)) =
        (Problem.fault .tabInTagValue ⟨4 + n, 5 + n⟩).mark
          (.ofBytes (indented n tabAndControl)) := by
      rw [mark_tabAndControl hwide .controlInTagValue (k := 11) (by decide),
        mark_tabAndControl hwide .tabInTagValue (k := 4) (by decide)]
      rfl
    have haccepted := (hobliging.yielding.report
      (welcomed (indented n tabAndControl) true).buffer (.fault .tabInTagValue ⟨4 + n, 5 + n⟩)).1
    show ((welcomed (indented n tabAndControl) true).reporter.reportAll _
      [.fault .tabInTagValue ⟨4 + n, 5 + n⟩,
        .fault .controlInTagValue ⟨11 + n, 12 + n⟩]).2.delivered.toList = _
    rw [hattends.delivered_of_mark_eq hbuffer (hfresh _) hmark haccepted]
    rfl

/-- Behind enough blanks the strict session is told of the tab and never of the control byte, of
which the other one is told. -/
theorem control_hidden_of_wide {n : Nat} (hwide : 0x100000000 ≤ n) :
    ∃ l s, Origin.memory.open "one.pgn" (indented n tabAndControl) ⟨false, 0⟩ = .ok l ∧
      Origin.memory.open "one.pgn" (indented n tabAndControl) ⟨true, 0⟩ = .ok s ∧
      ((l.attended ⟨fun _ _ => true⟩).operateAll (indented n tabAndControl)
          [.index 1]).2.db.reporter.delivered.toList ≠
        ((s.attended ⟨fun _ _ => true⟩).operateAll (indented n tabAndControl)
          [.index 1]).2.db.reporter.delivered.toList.filter Report.isOrdinary := by
  refine ⟨_, _, rfl, rfl, ?_⟩
  have hlenient := delivered_indented hwide false
  have hstrict := delivered_indented hwide true
  show ((welcomed (indented n tabAndControl) false).indexTo 1).2.reporter.delivered.toList ≠
    ((welcomed (indented n tabAndControl) true).indexTo 1).2.reporter.delivered.toList.filter _
  rw [hlenient, hstrict]
  exact List.cons_ne_nil _ _

/-- So it is in a line of `2 ^ 32` blanks and more. -/
theorem advice_hides_control :
    ∃ l s, Origin.memory.open "one.pgn" (indented 0x100000000 tabAndControl) ⟨false, 0⟩ = .ok l ∧
      Origin.memory.open "one.pgn" (indented 0x100000000 tabAndControl) ⟨true, 0⟩ = .ok s ∧
      ((l.attended ⟨fun _ _ => true⟩).operateAll (indented 0x100000000 tabAndControl)
          [.index 1]).2.db.reporter.delivered.toList ≠
        ((s.attended ⟨fun _ _ => true⟩).operateAll (indented 0x100000000 tabAndControl)
          [.index 1]).2.db.reporter.delivered.toList.filter Report.isOrdinary :=
  control_hidden_of_wide (Nat.le_refl _)

end Database

end Scorebook
