import Scorebook.Proofs.Catalogue.Pieces

/-!
# Scans without problems

A scan that runs into no problem reports nothing, so no handler can stop it. What is left of such a
scan is as quiet, wherever it was interrupted.
-/

namespace Scorebook

namespace Text

/-- The problems a scan from `pos` to the end of the text runs into, in order. -/
def problemsFrom (t : Text) (strict : Bool) (pos : Nat) : List Problem :=
  (t.nextItem strict pos).2 ++
    match _hnext : (t.nextItem strict pos).1.next? with
    | none => []
    | some next => t.problemsFrom strict next
termination_by t.size - pos
decreasing_by
  have := lt_of_next?_nextItem _hnext
  omega

/-- The problems of cataloguing the whole text, in order. -/
def scanProblems (t : Text) (strict : Bool) : List Problem :=
  t.problemsFrom strict (Catalogue.scanStart t 0)

/-- There is no problem ahead if the next item has none and there is none behind it. -/
theorem problemsFrom_eq_nil_iff {t : Text} {strict : Bool} {pos : Nat} :
    t.problemsFrom strict pos = [] ↔ (t.nextItem strict pos).2 = [] ∧
      ∀ next, (t.nextItem strict pos).1.next? = some next → t.problemsFrom strict next = [] := by
  rw [problemsFrom, List.append_eq_nil_iff]
  apply and_congr_right
  intro _
  split
  · next hnone => simp [hnone]
  · next next hnext => simp [hnext]

end Text

namespace Catalogue

variable {strict : Bool} {buffer : Buffer} {target : Nat} {c : Catalogue} {r : Reporter}

/-- Is there no problem in what the catalogue has not been through yet? -/
def QuietAhead (c : Catalogue) (t : Text) (strict : Bool) : Prop :=
  t.problemsFrom strict (scanStart t c.resume) = []

/-- A request is answered, whoever listens, and does not touch the reporter. -/
theorem QuietAhead.ensure (buffer : Buffer) (h : c.QuietAhead buffer.text strict) (target : Nat)
    (r : Reporter) :
    ∃ c', c.ensure strict buffer target r = (.ok c'.entries.size, c', r) ∧
      c'.QuietAhead buffer.text strict := by
  by_cases hdone : c.complete = true ∨ target ≤ c.entries.size
  · exact ⟨c, ensure_of_done hdone, h⟩
  · obtain ⟨c', hscan, hquiet⟩ := extendFrom_of_accepted target
      (P := fun pos => buffer.text.problemsFrom strict pos = [])
      (fun pos hpos => by rw [(Text.problemsFrom_eq_nil_iff.1 hpos).1]; rfl)
      (fun pos next hpos hnext => (Text.problemsFrom_eq_nil_iff.1 hpos).2 next hnext) h h
    exact ⟨c', by rw [ensure_of_open hdone, hscan]; rfl, hquiet⟩

end Catalogue

end Scorebook
