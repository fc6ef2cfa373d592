import Scorebook.Proofs.Header.Cutting
import Scorebook.Proofs.Recoverable

/-!
# Headers of a text that grows

A malformed pair may have been malformed only because the text was over, so a header with problems
can become another one when the text grows. A header without any is settled as soon as it has ended:
every text that shares its bytes and the first byte behind it has the same header there. Tabs in
values are remarked on in strict reading and do not count as problems here.
-/

namespace Scorebook

/-! ## Verdicts -/

/-- No fault leaves a game valid. -/
theorem Fault.verdict_ne_valid (kind : Fault) : kind.verdict ≠ .valid := by
  cases kind <;> decide

/-- No problem does. -/
theorem Problem.verdict_ne_valid (p : Problem) : p.verdict ≠ .valid := by
  cases p with
  | fault kind span => exact kind.verdict_ne_valid
  | _ => nofun

/-- A verdict is good if nothing but advice was given. -/
theorem Verdict.ofProblems_eq_valid_iff {problems : List Problem} :
    ofProblems problems = .valid ↔ ∀ p ∈ problems, p.isAdvisory = true := by
  unfold ofProblems
  cases hfound : problems.find? (!·.isAdvisory) with
  | none => simpa using hfound
  | some p =>
    have hserious := List.find?_some hfound
    have hmem := List.mem_of_find?_eq_some hfound
    constructor
    · intro hvalid
      exact absurd hvalid p.verdict_ne_valid
    · intro hadvice
      simp [hadvice p hmem] at hserious

namespace Text

variable {t u : Text} {n m k pos start stop next : Nat} {tag : RawTag} {strict : Bool}
  {problem : Problem}

/-- What was found before is among the problems of the header. -/
theorem mem_headerFrom_problems {tags : Array RawTag} {problems : Array Problem}
    (h : problem ∈ problems.toList) :
    problem ∈ (t.headerFrom strict start pos stop tags problems).problems := by
  have hwarned {pos : Nat} {problems : Array Problem} (h : problem ∈ problems.toList) :
      problem ∈ (if strict then problems ++ t.tabsInTag pos else problems).toList := by
    split
    · rw [Array.toList_appendList]
      exact List.mem_append_left _ h
    · exact h
  fun_induction headerFrom t strict start pos stop tags problems with
  | case1 pos stop tags problems hb warned tag next hpair gap ih =>
    apply ih
    rw [Array.toList_appendList]
    exact List.mem_append_left _ (hwarned h)
  | case2 pos stop tags problems hb warned problem' hpair next gap ih =>
    apply ih
    rw [Array.toList_appendList]
    exact List.mem_append_left _ (hwarned h)
  | case3 pos stop tags problems hb => exact h

/-! ## Two texts that agree -/

/-- A byte string and any longer one that starts with it. -/
theorem agreeBelow_append (a b : ByteArray) :
    (ofBytes a).AgreeBelow (ofBytes (a ++ b)) (ofBytes a).size := by
  intro i hi
  rw [getElem?_ofBytes_append, if_pos (by exact hi)]

namespace AgreeBelow

variable (h : t.AgreeBelow u n)

include h

/-- Cut off where they still agree the texts have the same bytes everywhere. -/
theorem upTo (hle : m ≤ n) (k : Nat) : (t.upTo m).AgreeBelow (u.upTo m) k := by
  intro i _
  rw [getElem?_upTo, getElem?_upTo]
  split
  · exact h i (by omega)
  · rfl

/-- Cut off at the limit or in front of it the texts are sought through alike. -/
theorem seek_upTo (hle : m ≤ n) (p : UInt8 → Bool) (pos : Nat) :
    (u.upTo m).seek p pos = (t.upTo m).seek p pos :=
  (h.upTo hle _).seek (Nat.lt_succ_self _)

/-- The bytes of a span up to the limit are the same. -/
theorem word {s : Span} (hle : s.stop ≤ n) : u.word s = t.word s := by
  apply List.ext_getElem?
  intro i
  rw [getElem?_word, getElem?_word]
  split
  · exact (h _ (by omega)).symm
  · rfl

/-- So is their checksum. -/
theorem checksum {s : Span} (hle : s.stop ≤ n) : u.checksum s = t.checksum s := by
  rw [Text.checksum, Text.checksum, h.word hle]

/-- The same tabs are in front of the limit. -/
theorem tabsBetween (hle : stop ≤ n) (tabs : Array Problem) :
    u.tabsBetween stop pos tabs = t.tabsBetween stop pos tabs := by
  fun_induction Text.tabsBetween t stop pos tabs with
  | case1 pos tabs hlt ih =>
    rw [Text.tabsBetween, if_pos hlt, ← h pos (by omega)]
    exact ih
  | case2 pos tabs hge => rw [Text.tabsBetween, if_neg hge]

/-- A pair that ends up to the limit has the same tabs. -/
theorem tabsInTag (hok : t.tagPair start = .ok (tag, next)) (hstart : start < t.size)
    (hle : next ≤ n) : u.tabsInTag start = t.tabsInTag start := by
  obtain ⟨quote, bracket, hpair, rfl⟩ := tagPair_eq_ok_iff.1 hok
  have hpair' := h.pair hpair hstart hle
  have hstop := hpair.stop_lt_bracket
  simp only [Text.tabsInTag, hpair.tagName, hpair'.tagName, hpair.opening, hpair'.opening,
    if_true, hpair.value_stop, hpair'.value_stop]
  rw [h.tabsBetween (by omega)]

/-! ## Headers without problems -/

/-- Pairs that are sound and end in front of the limit are read alike. -/
theorem headerFrom (tags : Array RawTag) (problems : Array Problem) (hpos : pos ≤ t.size)
    (hsound : ∀ p ∈ (t.headerFrom strict start pos stop tags problems).problems,
      p.isAdvisory = true)
    (hlt : (t.headerFrom strict start pos stop tags problems).next < n) :
    u.headerFrom strict start pos stop tags problems =
      t.headerFrom strict start pos stop tags problems := by
  fun_induction Text.headerFrom t strict start pos stop tags problems with
  | case1 pos stop tags problems hb warned tag next hpair gap ih =>
    have hpossize := lt_size_of_getElem? hb
    have hnext : pos < next := lt_of_tagPair hpossize hpair
    have hgap : next ≤ gap.stop := le_gap_stop t next
    have hend := le_headerFrom_next t strict start gap.stop next (tags.push tag)
      (warned ++ gap.problem?.toList)
    have hgapu : u.gap next = gap := h.gap (show gap.stop < n by omega)
    rw [headerFrom_of_tagPair (h.getElem? hb (by omega)) (h.tagPair hpair hpossize (by omega)),
      hgapu, h.tabsInTag hpair hpossize (by omega)]
    exact ih (gap_stop_le (le_size_of_tagPair hpair)) hsound hlt
  | case2 pos stop tags problems hb warned problem hpair next gap ih =>
    -- A malformed pair is more than advice, so the header was not sound.
    have hserious := (isOfPair_of_tagPair hpair).isAdvisory
    have hmem : problem ∈ (warned ++ problem :: gap.problem?.toList).toList := by
      rw [Array.toList_appendList]
      exact List.mem_append_right _ List.mem_cons_self
    rw [hsound problem (mem_headerFrom_problems hmem)] at hserious
    cases hserious
  | case3 pos stop tags problems hb =>
    rw [headerFrom_of_ne (by rw [← h pos hlt]; exact hb), h.seek_upTo (Nat.le_of_lt hlt)]

/-- A header without problems that ends where the texts agree is the header in both. -/
theorem header (hb : t[start]? = some Byte.openBracket)
    (hvalid : Verdict.ofProblems (t.header strict start).problems = .valid)
    (hlt : (t.header strict start).next < n) : u.header strict start = t.header strict start :=
  h.headerFrom #[] #[] (Nat.le_of_lt (lt_size_of_getElem? hb))
    (Verdict.ofProblems_eq_valid_iff.1 hvalid) hlt

end AgreeBelow

end Text

end Scorebook
