import Scorebook.Dump.Arguments

/-!
# The numbers on a command line

Whatever a command line amounts to, the games it asks for by number can be asked for: a number
that is taken as the value of an option is positive and no larger than any request for games may be.
-/

namespace Scorebook

/-- A number that is parsed is below the bound. -/
theorem Decimal.lt_of_parse? {bound n : Nat} {digits : List UInt8}
    (h : parse? bound digits = some n) : n < bound := by
  unfold parse? at h
  split at h
  · next hvalid =>
    cases h
    exact hvalid.2.2
  · cases h

namespace Dump

/-- The number of a game that a request may ask for. -/
def IsGameNumber (n : Nat) : Prop :=
  0 < n ∧ n ≤ Catalogue.allGames

/-- A positive number of 32 bits is the number of a game. -/
theorem isGameNumber_of_positive? {text : String} {n : Nat} (h : positive? text = some n) :
    IsGameNumber n := by
  obtain ⟨hparse, hpos⟩ := Option.filter_eq_some_iff.1 h
  exact ⟨of_decide_eq_true hpos, Nat.le_of_lt_succ (Decimal.lt_of_parse? hparse)⟩

/-! ## Single arguments -/

/-- All games asked for so far have numbers that a request may ask for. -/
def Draft.Numbered (p : Draft) : Prop :=
  ∀ n ∈ p.games, IsGameNumber n

variable {p q : Draft} {pending : Pending}

/-- A value that is set keeps the numbers those of games. -/
theorem Draft.Numbered.set (h : p.Numbered) {s : Setting} {value : String}
    (hset : p.set s value = .ok q) : q.Numbered := by
  unfold Draft.set at hset
  split at hset
  · split at hset
    · next n hn =>
      cases hset
      intro m hm
      rcases List.mem_append.1 hm with hm | hm
      · exact h m hm
      · exact List.mem_singleton.1 hm ▸ isGameNumber_of_positive? hn
    · cases hset
  · split at hset <;> cases hset
    exact h
  · split at hset <;> cases hset
    exact h

/-- A switch that is turned on asks for no game. -/
theorem Draft.Numbered.turnOn (h : p.Numbered) {s : Switch} (hon : p.turnOn s = .ok q) :
    q.Numbered := by
  unfold Draft.turnOn at hon
  split at hon
  · cases hon
  · cases hon
  · split at hon <;> cases hon
    exact h

/-- Nor does the name of a database. -/
theorem Draft.Numbered.place (h : p.Numbered) {value : String} (hplace : p.place value = .ok q) :
    q.Numbered := by
  unfold Draft.place at hplace
  split at hplace <;> cases hplace
  exact h

/-- An option is read into a draft and what it still needs. -/
theorem eq_ok_of_map {r : Except Stop Draft} {needed : Pending}
    (h : r.map (·, needed) = .ok (q, pending)) : r = .ok q := by
  cases r with
  | error stop => cases h
  | ok p =>
    cases h
    rfl

/-- Short options keep the numbers those of games. -/
theorem numbered_readShort {names : List Char} (h : p.Numbered)
    (hread : readShort p names = .ok (q, pending)) : q.Numbered := by
  induction names generalizing p with
  | nil =>
    cases hread
    exact h
  | cons c rest ih =>
    rw [readShort] at hread
    split at hread
    · cases hread
    · cases hread
    · next s hlookup =>
      rcases hon : p.turnOn s with stop | p'
      · rw [hon] at hread
        cases hread
      · rw [hon] at hread
        exact ih (h.turnOn hon) hread
    · next s hlookup =>
      split at hread
      · cases hread
        exact h
      · exact h.set (eq_ok_of_map hread)
      · exact h.set (eq_ok_of_map hread)

/-- So does a long option. -/
theorem numbered_readLong {arg : List Char} (h : p.Numbered)
    (hread : readLong p arg = .ok (q, pending)) : q.Numbered := by
  unfold readLong at hread
  simp only at hread
  split at hread
  · exact h.turnOn (eq_ok_of_map hread)
  · cases hread
    exact h
  · exact h.set (eq_ok_of_map hread)
  · cases hread
    exact h
  · cases hread

/-- So does an option of either form. -/
theorem numbered_readOption {arg : List Char} (h : p.Numbered)
    (hread : readOption p arg = .ok (q, pending)) : q.Numbered := by
  unfold readOption at hread
  split at hread
  · exact numbered_readLong h hread
  · exact numbered_readShort h hread
  · cases hread

/-! ## Whole command lines -/

/-- So does what stands behind the options. -/
theorem numbered_readPlain {args : List String} (h : p.Numbered)
    (hread : readPlain p args = .ok q) : q.Numbered := by
  induction args generalizing p with
  | nil =>
    cases hread
    exact h
  | cons arg rest ih =>
    rw [readPlain] at hread
    split at hread
    · cases hread
    · next p' hplace => exact ih (h.place hplace) hread

/-- So do all arguments. -/
theorem numbered_readAll {args : List String} (h : p.Numbered)
    (hread : readAll p pending args = .ok q) : q.Numbered := by
  induction args generalizing p pending with
  | nil =>
    rw [readAll] at hread
    split at hread <;> cases hread
    exact h
  | cons arg rest ih =>
    cases pending with
    | nothing =>
      rw [readAll] at hread
      split at hread
      · split at hread
        · cases hread
        · next p' hplace => exact ih (h.place hplace) hread
      · split at hread
        · exact numbered_readPlain h hread
        · split at hread
          · cases hread
          · next p' needed hoption => exact ih (numbered_readOption h hoption) hread
    | value s =>
      rw [readAll] at hread
      split at hread
      · split at hread
        · cases hread
        · next p' hset => exact ih (h.set hset) hread
      · cases hread
    | textName =>
      rw [readAll] at hread
      split at hread
      · exact ih h hread
      · cases hread
    | textContent name =>
      rw [readAll] at hread
      split at hread
      · exact ih (p := { p with texts := p.texts ++ [(name, arg)] }) h hread
      · cases hread

/-- The games that a command line asks for by number can be asked for. -/
theorem isGameNumber_of_arguments {args : List String} {request : Request}
    (h : Invocation.ofArguments args = .run request) : ∀ n ∈ request.games, IsGameNumber n := by
  unfold Invocation.ofArguments at h
  split at h
  · cases h
  · cases h
  · cases h
  · next p hread =>
    have hnumbered : p.Numbered := numbered_readAll (p := .empty) nofun hread
    split at h
    · next request' hrequest =>
      cases h
      unfold Draft.request? at hrequest
      split at hrequest
      · cases hrequest
      · cases hrequest
        exact hnumbered
    · cases h

end Dump

end Scorebook
