import Mathlib.Algebra.GroupWithZero.Nat
import Mathlib.Data.List.Nodup
import Mathlib.Data.List.Perm.Subperm
import Scorebook.Game
import Scorebook.Proofs.Movetext.Drawing

/-!
# Counting the lines of a score

The lines of a score are counted by a walk over the tables. It keeps the lines still to be visited
on a stack and remembers nothing of those it has visited, so by itself it might visit a line twice,
or never end. That the tables describe a tree rules this out: a line stands once in the list of one
move, and whatever is on the stack was put there from a line that was visited. The lines that are
visited are those from which the moves they branch from lead back to the main line. A variation
written before the first move of its line branches from no move, so neither it nor a line in it is
visited.
-/

namespace Scorebook

namespace Arena

variable {a b : Arena} {u v w m : Nat}

/-! ## The walk -/

/-- The alternatives to moves, in order. There is no answer if one of the moves is not there. -/
def branchesOf? (a : Arena) : List Nat → Option (List Nat)
  | [] => some []
  | m :: rest => do
    let node ← a.move? m
    let later ← a.branchesOf? rest
    return node.variations.toList ++ later

/-- The alternatives to the moves of a line, in order. -/
def children? (a : Arena) (v : Nat) : Option (List Nat) := do
  let line ← a.line? v
  a.branchesOf? line.moves.toList

/-- The walk with the given lines on its stack and in the list of those visited comes to an end
with the lines of `all` visited, the last one in front. It visits the line on top of the stack and
puts the alternatives to its moves in its place, until the stack is empty. -/
inductive Walk (a : Arena) : (stack visited all : List Nat) → Prop where
  | done (visited : List Nat) : a.Walk [] visited visited
  | visit {v : Nat} {rest children visited all : List Nat}
      (hchildren : a.children? v = some children)
      (hwalk : a.Walk (children.reverse ++ rest) (v :: visited) all) :
      a.Walk (v :: rest) visited all

/-- A walk leads to one end. -/
theorem Walk.unique {stack visited all other : List Nat} (h : a.Walk stack visited all)
    (hother : a.Walk stack visited other) : all = other := by
  induction h with
  | done visited => cases hother; rfl
  | visit hchildren _ ih =>
    cases hother with
    | visit hchildren' hwalk' =>
      obtain rfl := Option.some.inj (hchildren.symm.trans hchildren')
      exact ih hwalk'

/-- The lines are counted as `n`: none if there is no line, and otherwise those that a walk from the
main line visits. -/
def LeafCount (a : Arena) (n : Nat) : Prop :=
  if a.lines.isEmpty then n = 0 else ∃ visited, a.Walk [0] [] visited ∧ visited.length = n

/-- A tree has one number of leaves. -/
theorem LeafCount.unique {n k : Nat} (hn : a.LeafCount n) (hk : a.LeafCount k) : n = k := by
  unfold LeafCount at hn hk
  split at hn
  case isTrue hempty =>
    rw [if_pos hempty] at hk
    rw [hn, hk]
  case isFalse hempty =>
    rw [if_neg hempty] at hk
    obtain ⟨visited, hwalk, rfl⟩ := hn
    obtain ⟨other, hother, rfl⟩ := hk
    rw [hwalk.unique hother]

/-! ## What is visited -/

/-- The line whose move a line branches from. -/
def parentLine? (a : Arena) (w : Nat) : Option Nat := do
  let line ← a.line? w
  let m ← line.parent
  let node ← a.move? m
  return node.parent

/-- Following the moves that lines branch from leads from a line to the main line. -/
inductive LeadsToMain (a : Arena) : Nat → Prop
  | main : a.LeadsToMain 0
  | branch {v w : Nat} (hparent : a.parentLine? w = some v) (hline : a.LeadsToMain v) :
    a.LeadsToMain w

/-- The line around a line is that of the move it branches from. -/
theorem parentLine?_eq_some :
    a.parentLine? w = some v ↔
      ∃ m node, (a.line? w).bind LineNode.parent = some m ∧ a.move? m = some node ∧
        node.parent = v := by
  simp only [parentLine?, Option.bind_eq_bind, Option.bind_eq_some_iff, Option.pure_def,
    Option.some.injEq]
  constructor
  · rintro ⟨line, hline, m, hm, node, hnode, hv⟩
    exact ⟨m, node, ⟨line, hline, hm⟩, hnode, hv⟩
  · rintro ⟨m, node, ⟨line, hline, hm⟩, hnode, hv⟩
    exact ⟨line, hline, m, hm, node, hnode, hv⟩

/-- The main line branches from no move. -/
theorem IsTree.parentLine?_main (h : a.IsTree) : a.parentLine? 0 = none := by
  obtain ⟨line, hline, hparent, -⟩ := h.main
  rw [parentLine?, hline, Option.bind_eq_bind, Option.bind_some, hparent]
  rfl

/-- The lines that branch from moves can be gathered, each of them once. -/
theorem IsTree.branchesOf? (h : a.IsTree) {ids : List Nat} (hnodup : ids.Nodup)
    (hids : ∀ m ∈ ids, ∃ node, a.move? m = some node) :
    ∃ branches, a.branchesOf? ids = some branches ∧ branches.Nodup ∧
      ∀ w, w ∈ branches ↔ ∃ m ∈ ids, (a.line? w).bind LineNode.parent = some m := by
  -- By induction on the moves, whose alternatives are put one behind the other.
  induction ids with
  | nil =>
    refine ⟨[], rfl, List.nodup_nil, ?_⟩
    intro w
    simp
  | cons m rest ih =>
    obtain ⟨hm, hrest⟩ := List.nodup_cons.1 hnodup
    obtain ⟨⟨node, hnode⟩, hids⟩ := List.forall_mem_cons.1 hids
    obtain ⟨later, hlater, hdistinct, hmem⟩ := ih hrest hids
    have hcount (w : Nat) : node.variations.toList.count w =
        if (a.line? w).bind LineNode.parent = some m then 1 else 0 := by
      rw [← h.branching hnode w, Array.count_toList]
    -- A line is listed once by the move it starts from, and by no other.
    have hown (w : Nat) : w ∈ node.variations.toList ↔
        (a.line? w).bind LineNode.parent = some m := by
      rw [← List.count_pos_iff, hcount]
      split <;> simp_all
    refine ⟨node.variations.toList ++ later, ?_, ?_, ?_⟩
    · rw [Arena.branchesOf?, hnode, hlater]
      rfl
    · refine List.nodup_append.2 ⟨?_, hdistinct, ?_⟩
      · rw [List.nodup_iff_count_le_one]
        intro w
        rw [hcount]
        split <;> omega
      · -- A line branches from one move.
        rintro w hw _ hw' rfl
        obtain ⟨n, hn, hparent⟩ := (hmem w).1 hw'
        cases ((hown w).1 hw).symm.trans hparent
        exact hm hn
    · intro w
      rw [List.mem_append, hown, hmem]
      simp

/-- The alternatives found for a line are the lines that branch from one of its moves, each of them
once. -/
theorem IsTree.children? (h : a.IsTree) (hv : v < a.lines.size) :
    ∃ children, a.children? v = some children ∧ children.Nodup ∧
      ∀ w, w ∈ children ↔ a.parentLine? w = some v := by
  obtain ⟨line, hline⟩ := exists_line? hv
  have hlisted {m : Nat} : m ∈ line.moves.toList ↔
      ∃ node, a.move? m = some node ∧ node.parent = v := by
    rw [Array.mem_toList_iff, h.mem_moves hline]
  have hnodup : line.moves.toList.Nodup := (h.sorted hline).imp Nat.ne_of_lt
  obtain ⟨children, hchildren, hdistinct, hmem⟩ := h.branchesOf? hnodup fun m hm =>
    (hlisted.1 hm).imp fun _ hnode => hnode.1
  refine ⟨children, ?_, hdistinct, ?_⟩
  · rw [Arena.children?, hline]
    exact hchildren
  · -- Membership is said of lines, the moves between are what the lists are made of.
    intro w
    rw [hmem, parentLine?_eq_some]
    constructor
    · rintro ⟨m, hm, hparent⟩
      obtain ⟨node, hnode, hline⟩ := hlisted.1 hm
      exact ⟨m, node, hparent, hnode, hline⟩
    · rintro ⟨m, node, hparent, hnode, hline⟩
      exact ⟨m, hlisted.2 ⟨node, hnode, hline⟩, hparent⟩

/-! ## The course of the walk -/

/-- What holds all along a walk from the main line. -/
structure Walking (a : Arena) (stack visited : List Nat) : Prop where
  /-- No line is met twice. -/
  once : (stack ++ visited).Nodup
  main : 0 ∈ stack ++ visited
  /-- A line that is met leads to the main line. -/
  leads : ∀ w ∈ stack ++ visited, a.LeadsToMain w
  /-- Exactly the alternatives to moves of visited lines are met, apart from the main line. -/
  met : ∀ v w, a.parentLine? w = some v → (w ∈ stack ++ visited ↔ v ∈ visited)

/-- A walk starts at the main line. -/
theorem walking_start (h : a.IsTree) : a.Walking [0] [] where
  once := List.nodup_singleton 0
  main := List.mem_singleton_self 0
  leads := by
    intro w hw
    obtain rfl := List.mem_singleton.1 hw
    exact .main
  met := by
    intro v w hparent
    refine iff_of_false ?_ List.not_mem_nil
    intro hw
    obtain rfl := List.mem_singleton.1 hw
    cases h.parentLine?_main.symm.trans hparent

/-- A line that leads to the main line is in the arena. -/
theorem IsTree.lt_size_of_leadsToMain (h : a.IsTree) (hw : a.LeadsToMain w) :
    w < a.lines.size := by
  cases hw with
  | main =>
    obtain ⟨line, hline, -⟩ := h.main
    exact lt_of_line? hline
  | branch hparent hv =>
    obtain ⟨m, node, hm, -⟩ := parentLine?_eq_some.1 hparent
    obtain ⟨line, hline, -⟩ := Option.bind_eq_some_iff.1 hm
    exact lt_of_line? hline

/-- One visit. -/
theorem Walking.step {rest visited : List Nat} (h : a.Walking (v :: rest) visited)
    {children : List Nat} (hdistinct : children.Nodup)
    (hchildren : ∀ w, w ∈ children ↔ a.parentLine? w = some v) :
    a.Walking (children.reverse ++ rest) (v :: visited) := by
  -- What is met is the same before and after, and the children of `v` besides.
  have hperm : (children.reverse ++ rest ++ v :: visited).Perm
      (children ++ (v :: rest ++ visited)) := by
    rw [List.append_assoc]
    exact (List.reverse_perm children).append List.perm_middle
  have hmem (w : Nat) : w ∈ children.reverse ++ rest ++ v :: visited ↔
      w ∈ children ∨ w ∈ v :: rest ++ visited := by
    rw [hperm.mem_iff, List.mem_append]
  have hv : v ∉ visited := by
    have := (List.nodup_cons.1 h.once).1
    exact fun hmem => this (List.mem_append_right rest hmem)
  -- The line was not visited before, so none of its alternatives was met.
  have hfresh (w : Nat) (hw : w ∈ children) : w ∉ v :: rest ++ visited :=
    fun hmet => hv ((h.met v w ((hchildren w).1 hw)).1 hmet)
  constructor
  case once =>
    refine hperm.nodup_iff.2 (List.nodup_append.2 ⟨hdistinct, h.once, ?_⟩)
    rintro w hw _ hw' rfl
    exact hfresh w hw hw'
  case main => exact (hmem 0).2 (.inr h.main)
  case leads =>
    intro w hw
    rcases (hmem w).1 hw with hchild | hmet
    · exact .branch ((hchildren w).1 hchild) (h.leads v List.mem_cons_self)
    · exact h.leads w hmet
  -- A line is met as soon as the line around it is visited, which `v` now is.
  case met =>
    intro u w hparent
    rw [hmem, List.mem_cons, h.met u w hparent, hchildren, hparent, Option.some.injEq]

/-- The lines a walk visits, all of them. -/
structure Visits (a : Arena) (visited : List Nat) : Prop where
  once : visited.Nodup
  mem_iff : ∀ v, v ∈ visited ↔ a.LeadsToMain v

/-- A walk that has come to its end has visited all lines that lead to the main line. -/
theorem Walking.visits {visited : List Nat} (h : a.Walking [] visited) : a.Visits visited where
  once := h.once
  mem_iff := by
    intro v
    refine ⟨h.leads v, ?_⟩
    intro hv
    induction hv with
    | main => exact h.main
    | branch hparent _ ih => exact (h.met _ _ hparent).2 ih

/-- A walk does not have more lines than there are, so it comes to an end. -/
theorem Walking.length_le (h : a.IsTree) {stack visited : List Nat}
    (hwalk : a.Walking stack visited) : (stack ++ visited).length ≤ a.lines.size := by
  have hsub : stack ++ visited ⊆ List.range a.lines.size := fun w hw =>
    List.mem_range.2 (h.lt_size_of_leadsToMain (hwalk.leads w hw))
  have hle := (List.subperm_of_subset hwalk.once hsub).length_le
  rwa [List.length_range] at hle

/-- The walk ends, since there are only so many lines to visit. -/
theorem Walking.walk (htree : a.IsTree) {stack visited : List Nat} (h : a.Walking stack visited) :
    ∃ all, a.Walk stack visited all ∧ a.Visits all := by
  cases stack with
  | nil => exact ⟨visited, .done visited, h.visits⟩
  | cons v rest =>
    obtain ⟨children, hchildren, hdistinct, hmem⟩ :=
      htree.children? (htree.lt_size_of_leadsToMain (h.leads v List.mem_cons_self))
    have hnext := h.step hdistinct hmem
    obtain ⟨all, hall, hvisits⟩ := Walking.walk htree hnext
    exact ⟨all, .visit hchildren hall, hvisits⟩
termination_by a.lines.size - visited.length
decreasing_by
  have hle := h.length_le htree
  simp only [List.length_append, List.length_cons] at hle ⊢
  omega

/-- The walk over tables that describe a tree visits the lines that lead to the main line, each of
them once, and counts them. -/
theorem IsTree.exists_visits (h : a.IsTree) :
    ∃ visited, a.Walk [0] [] visited ∧ a.LeafCount visited.length ∧ a.Visits visited := by
  obtain ⟨visited, hwalk, hvisits⟩ := (walking_start h).walk h
  refine ⟨visited, hwalk, ?_, hvisits⟩
  obtain ⟨line, hline, -⟩ := h.main
  have hlines : a.lines.isEmpty = false := by
    rw [Array.isEmpty_eq_false_iff_exists_mem]
    exact ⟨line, Array.mem_of_getElem? hline⟩
  rw [LeafCount, hlines, if_neg Bool.false_ne_true]
  exact ⟨visited, hwalk, rfl⟩

/-! ## Strays -/

/-- The line is a variation that branches from no move. -/
def IsStray (a : Arena) (v : Nat) : Prop :=
  0 < v ∧ (a.line? v).map LineNode.parent = some none
deriving Decidable

/-- The line around a line can be told from the links. -/
theorem parentLine?_eq_links (a : Arena) (w : Nat) :
    a.parentLine? w = ((a.line? w).map LineNode.links).bind fun links =>
      links.1.bind fun m => ((a.move? m).map MoveNode.links).map fun links => links.2.1 := by
  unfold parentLine?
  cases a.line? w with
  | none => rfl
  | some line =>
    simp only [Option.bind_eq_bind, Option.bind_some, Option.map_some, LineNode.links]
    cases line.parent with
    | none => rfl
    | some m =>
      simp only [Option.bind_some]
      cases a.move? m <;> rfl

/-- So it is the same in an arena with the same links. -/
theorem SameLinks.parentLine?_eq (h : a.SameLinks b) (w : Nat) :
    b.parentLine? w = a.parentLine? w := by
  simp only [parentLine?_eq_links, h.lines, h.moves]

/-- Lines lead to the main line in both arenas or in none. -/
theorem SameLinks.leadsToMain (h : a.SameLinks b) (hw : b.LeadsToMain w) : a.LeadsToMain w := by
  induction hw with
  | main => exact .main
  | branch hparent _ ih => exact .branch ((h.parentLine?_eq _).symm.trans hparent) ih

/-- A line is a stray in both arenas or in none. -/
theorem SameLinks.isStray (h : a.SameLinks b) (hv : b.IsStray v) : a.IsStray v := by
  obtain ⟨hpositive, hnone⟩ := hv
  obtain ⟨line, hline, hparent⟩ := Option.map_eq_some_iff.1 hnone
  obtain ⟨line', hline', hsame, -⟩ := h.symm.line hline
  exact ⟨hpositive, Option.map_eq_some_iff.2 ⟨line', hline', hsame.trans hparent⟩⟩

theorem SameLinks.refl (a : Arena) : a.SameLinks a :=
  ⟨fun _ => rfl, fun _ => rfl⟩

/-- Links that are the same twice are the same. -/
theorem SameLinks.trans {c : Arena} (hab : a.SameLinks b) (hbc : b.SameLinks c) : a.SameLinks c :=
  ⟨fun v => (hbc.lines v).trans (hab.lines v), fun m => (hbc.moves m).trans (hab.moves m)⟩

end Arena

namespace Filler

variable {t : Text} {s : Span} {f : Filler} {r : Reader} {pos v w : Nat}

/-- Letting lines end does not change what ties them together. -/
theorem sameLinks_finish (f : Filler) (stop : Nat) : f.arena.SameLinks (f.finish stop) := by
  unfold finish
  generalize (f.frame :: f.outer).dropLast = frames
  generalize f.arena = a
  induction frames generalizing a with
  | nil => exact .refl a
  | cons frame frames ih =>
    rw [List.foldl_cons]
    refine Arena.SameLinks.trans ?_ (ih _)
    exact a.sameLinks_updateLine frame.line fun _ => rfl

/-- Line `w` was opened inside line `v`: it starts behind the start of line `v`, which is still open
or ends behind that. -/
def Inside (f : Filler) (v w : Nat) : Prop :=
  ∃ x ∈ f.arena.line? v, ∃ y ∈ f.arena.line? w,
    x.span.start < y.span.start ∧ (v ∈ f.opened ∨ y.span.start ≤ x.span.stop)
deriving Decidable

/-- A line is behind the line it stands in. -/
theorem Lies.lt_of_inside (h : f.Lies t s pos) (hinside : f.Inside v w) : v < w := by
  obtain ⟨x, hx, y, hy, hstart, -⟩ := hinside
  rcases Nat.lt_trichotomy v w with hlt | rfl | hgt
  · exact hlt
  · cases hx.symm.trans hy
    omega
  · have : y.span.start < x.span.start := h.nesting.lines_increase w v y.place x.place hgt
      (Arena.layout_line? hy) (Arena.layout_line? hx)
    omega

/-- A line inside another that branches from a move branches from the other line, or from one inside
it. -/
theorem Lies.inside_parentLine (h : f.Lies t s pos) {u : Nat} (hinside : f.Inside v w)
    (hparent : f.arena.parentLine? w = some u) : u = v ∨ f.Inside v u := by
  have hlt := h.lt_of_inside hinside
  obtain ⟨x, hx, y, hy, hstart, hend⟩ := hinside
  obtain ⟨m, node, hm, hnode, rfl⟩ := Arena.parentLine?_eq_some.1 hparent
  obtain ⟨y', hy', hm⟩ := Option.bind_eq_some_iff.1 hm
  cases hy.symm.trans hy'
  -- `e` is the line that `w` was opened in, so that is the line of the move it starts from.
  obtain ⟨e, z, hz, hew, -, hbranch, hbetween, -⟩ :=
    h.nesting.enclosed w y.place (by omega) (Arena.layout_line? hy)
  obtain ⟨place, hplace, he⟩ := hbranch m hm
  cases (Arena.layout_move? hnode).symm.trans hplace
  obtain ⟨outer, houter, rfl⟩ := Option.map_eq_some_iff.1 hz
  obtain rfl : node.parent = e := he
  have hincrease {i j : Nat} {p q : LineNode} (hij : i < j) (hp : f.arena.line? i = some p)
      (hq : f.arena.line? j = some q) : p.span.start < q.span.start :=
    h.nesting.lines_increase i j p.place q.place hij (Arena.layout_line? hp)
      (Arena.layout_line? hq)
  -- The line of that move was opened before `v`, or it is `v`, or it was opened within `v`.
  rcases Nat.lt_trichotomy node.parent v with hbefore | heq | hbehind
  · -- The lines between have ended in front of line `w`.
    obtain ⟨hclosed, hstop⟩ := hbetween v x.place hbefore hlt (Arena.layout_line? hx)
    have hstop : x.span.stop + 1 < y.span.start := hstop
    have := hend.resolve_left hclosed
    omega
  · exact .inl heq
  · have hfirst := hincrease hbehind hx houter
    have hsecond := hincrease hew houter hy
    exact .inr ⟨x, hx, outer, houter, hfirst, hend.imp_right fun hle => by omega⟩

/-- Nothing leads from a stray, or from inside of it, to the main line. -/
theorem Lies.not_leadsToMain (h : f.Lies t s pos) (hstray : f.arena.IsStray v)
    (hw : w = v ∨ f.Inside v w) : ¬ f.arena.LeadsToMain w := by
  intro hleads
  obtain ⟨hpositive, hparentless⟩ := hstray
  obtain ⟨line, hline, hnone⟩ := Option.map_eq_some_iff.1 hparentless
  -- By induction on the way from the main line: it never enters the stray line.
  induction hleads with
  | main =>
    obtain rfl | hinside := hw
    · omega
    · have := h.lt_of_inside hinside
      omega
  | branch hparent _ ih =>
    apply ih
    obtain rfl | hinside := hw
    · obtain ⟨m, node, hm, -⟩ := Arena.parentLine?_eq_some.1 hparent
      rw [hline, Option.bind_some, hnone] at hm
      cases hm
    · exact h.inside_parentLine hinside hparent

/-! ## The end of both passes -/

/-- Once all lines are closed the tables draw the main line. -/
theorem Draws.finish (h : f.Draws r) (hgrows : f.Grows) {stop : Nat}
    (hmain : ∀ line, f.arena.line? 0 = some line → line.span.stop = stop) :
    (Reader.closeAll r.line stop r.outer).id = 0 ∧
      (f.finish stop).view.Draws none (Reader.closeAll r.line stop r.outer) := by
  -- By induction on the lines that are open, each of which is closed at the end.
  induction houter : r.outer generalizing f r with
  | nil =>
    have hframes : f.outer = [] := by
      rw [← List.isEmpty_iff, h.isEmpty_outer, houter]
      rfl
    have hdrawn := h.lines
    rw [houter, hframes] at hdrawn
    have hfits := hgrows.frames
    rw [hframes] at hfits
    have hline : f.frame.line = 0 := hfits.2
    refine ⟨r.line.settle_eq.1.trans (hdrawn.place.trans hline), ?_⟩
    rw [Filler.finish, hframes]
    refine OpenLine.DrawnBy.close hdrawn f.view_extends_view (fun _ _ => rfl) ?_
    intro node hnode
    rw [hline] at hnode ⊢
    rw [← hmain node hnode]
    exact hnode
  | cons parent lines ih =>
    obtain ⟨frame, frames, hframes, hleave⟩ := h.leave hgrows stop houter
    have hgrows' := hgrows.leave stop hframes
    have hfinish : f.finish stop = (f.leave stop frame frames).finish stop := by
      rw [Filler.finish, hframes, List.dropLast_cons_cons]
      rfl
    rw [hfinish]
    refine ih hleave hgrows' ?_ rfl
    intro line hline
    -- The line that is left is not the main line.
    have hne : f.frame.line ≠ 0 := by
      have hlt := hgrows.frames.lt_line frame (hframes ▸ List.mem_cons_self)
      omega
    rw [Filler.leave, Arena.line?_updateLine, if_neg hne] at hline
    exact hmain line hline

end Filler

/-! ## The tree -/

/-- The order of lines does not matter for their weight. -/
theorem variationsWeight_reverse (vs : List Variation) :
    variationsWeight vs.reverse = variationsWeight vs := by
  induction vs with
  | nil => rfl
  | cons v vs ih =>
    simp only [List.reverse_cons, variationsWeight_append, ih, variationsWeight]
    omega

namespace Variation

/-- Lines are counted part by part. -/
theorem countFrom_append (xs ys : List Variation) (count : Nat) :
    countFrom (xs ++ ys) count = countFrom ys (countFrom xs count) := by
  fun_induction countFrom xs count with
  | case1 => rfl
  | case2 count v rest ih =>
    rw [List.cons_append, countFrom, ← List.append_assoc]
    exact ih

/-- A count that starts higher ends as much higher. -/
theorem countFrom_add (pending : List Variation) (count k : Nat) :
    countFrom pending (count + k) = countFrom pending count + k := by
  fun_induction countFrom pending count with
  | case1 => rw [countFrom]
  | case2 count v rest ih =>
    rw [countFrom, Nat.add_right_comm]
    exact ih

/-- Every line still to be visited is counted with what is reachable from it. -/
theorem countFrom_eq (pending : List Variation) (count : Nat) :
    countFrom pending count = count + (pending.map leafCount).sum := by
  induction pending generalizing count with
  | nil => rw [countFrom]; rfl
  | cons v rest ih =>
    have hfirst := countFrom_add [v] 0 count
    rw [Nat.zero_add, Nat.add_comm] at hfirst
    rw [← List.singleton_append, countFrom_append, ih, hfirst, List.singleton_append,
      List.map_cons, List.sum_cons, Nat.add_assoc]
    rfl

/-- A line has one leaf and those of the lines behind it. -/
theorem leafCount_eq (v : Variation) : v.leafCount = 1 + (v.children.map leafCount).sum := by
  rw [leafCount, countFrom, List.append_nil, countFrom_eq]

/-- A visit passes as many branches as there are leaves. -/
theorem size_visitFrom (pending : List Branch) (visited : Array Branch) :
    (visitFrom pending visited).size =
      visited.size + (pending.map fun b => b.variation.leafCount).sum := by
  fun_induction visitFrom pending visited with
  | case1 => rfl
  | case2 visited b rest ih =>
    have hnext : (b.next.map fun b => b.variation.leafCount) =
        b.variation.children.map leafCount := by
      rw [← b.map_variation_next, List.map_map]
      rfl
    rw [ih, Array.size_push, List.map_append, List.sum_append, hnext, List.map_cons,
      List.sum_cons, b.variation.leafCount_eq]
    omega

/-- A walk from a line breadth first lists as many variations as are counted. -/
theorem length_breadthFirst (v : Variation) : v.breadthFirst.length = v.leafCount := by
  rw [breadthFirst, Array.length_toList, size_visitFrom]
  simp

end Variation

namespace View

/-- Each of the lines that are drawn is. -/
theorem of_mem_drawsLines {w : View} {parent : Option Nat} {vs : List Variation} {v : Variation}
    (h : w.DrawsLines parent vs) (hv : v ∈ vs) : w.Draws parent v := by
  induction vs with
  | nil => cases hv
  | cons first rest ih =>
    rw [DrawsLines] at h
    obtain rfl | hv := List.mem_cons.1 hv
    · exact h.1
    · exact ih h.2 hv

end View

namespace Arena

variable {a : Arena} {parent : Option Nat} {v : Variation}

/-- The lines that branch from moves that are drawn are gathered by their positions. -/
theorem branchesOf?_of_draws {line : Nat} {ids : List Nat} {moves : List Move}
    (h : a.view.DrawsMoves line ids moves) :
    a.branchesOf? ids = some ((moves.flatMap Move.variations).map Variation.id) ∧
      ∀ c ∈ moves.flatMap Move.variations, ∃ m, a.view.Draws (some m) c := by
  -- By induction on the moves, as `branchesOf?` collects their alternatives.
  induction moves generalizing ids with
  | nil =>
    rw [View.DrawsMoves] at h
    rw [h]
    exact ⟨rfl, nofun⟩
  | cons m moves ih =>
    rw [View.DrawsMoves] at h
    obtain ⟨id, rest, rfl, hmove, hmoves⟩ := h
    obtain ⟨⟨variations, hnode, hids⟩, hlines⟩ := View.drawsMove_iff.1 hmove
    obtain ⟨hrest, hlater⟩ := ih hmoves
    refine ⟨?_, ?_⟩
    · have hnode : a.move? id = some (m.node variations line) := hnode
      rw [Arena.branchesOf?, hnode, hrest, List.flatMap_cons, List.map_append, ← hids]
      rfl
    · intro c hc
      rw [List.flatMap_cons, List.mem_append] at hc
      rcases hc with hc | hc
      · exact ⟨id, View.of_mem_drawsLines hlines hc⟩
      · exact hlater c hc

/-- The alternatives found in the tables are those of the line that is drawn. -/
theorem children?_of_draws (h : a.view.Draws parent v) :
    a.children? v.id = some (v.children.map Variation.id) ∧
      ∀ c ∈ v.children, ∃ m, a.view.Draws (some m) c := by
  obtain ⟨id, depth, span, comment, moves, strays⟩ := v
  rw [View.Draws] at h
  obtain ⟨⟨ids, hline, hmoves⟩, -⟩ := h
  obtain ⟨hbranches, hdrawn⟩ := branchesOf?_of_draws hmoves
  refine ⟨?_, hdrawn⟩
  have hline : a.line? id = some ⟨parent, ids, span, comment, depth⟩ := hline
  rw [Arena.children?, hline]
  exact hbranches

/-- A walk over lines that are drawn visits each of them and what is reachable from it. -/
theorem length_walk_of_draws : ∀ {stack : List Variation},
    (∀ v ∈ stack, ∃ parent, a.view.Draws parent v) → ∀ visited : List Nat,
      ∃ all, a.Walk (stack.map Variation.id) visited all ∧
        all.length = visited.length + (stack.map Variation.leafCount).sum
  | [], _, visited => ⟨visited, .done visited, rfl⟩
  | v :: rest, hstack, visited => by
    obtain ⟨⟨parent, hv⟩, hrest⟩ := List.forall_mem_cons.1 hstack
    obtain ⟨hchildren, hdrawn⟩ := children?_of_draws hv
    -- The children of a drawn line are drawn, so the walk goes on with them.
    have hnext : ∀ c ∈ v.children.reverse ++ rest, ∃ parent, a.view.Draws parent c := by
      intro c hc
      rcases List.mem_append.1 hc with hc | hc
      · exact (hdrawn c (List.mem_reverse.1 hc)).imp' some fun _ h => h
      · exact hrest c hc
    obtain ⟨all, hall, hlength⟩ := length_walk_of_draws hnext (v.id :: visited)
    refine ⟨all, ?_, ?_⟩
    · rw [List.map_append, List.map_reverse] at hall
      exact .visit hchildren hall
    · rw [List.map_append, List.sum_append, List.map_reverse, List.sum_reverse,
        List.length_cons] at hlength
      rw [hlength, List.map_cons, List.sum_cons, v.leafCount_eq]
      omega
termination_by stack => variationsWeight stack
decreasing_by
  have := v.variationsWeight_children_lt
  simp only [variationsWeight_append, variationsWeight_reverse, variationsWeight]
  omega

end Arena

/-! ## The statement -/

/-- The first lexemes of a layout are laid out. -/
theorem LaidOut.take {t : Text} {stop pos : Nat} {lexemes : List Lexeme}
    (h : LaidOut t stop pos lexemes) (k : Nat) : LaidOut t stop pos (lexemes.take k) := by
  induction lexemes generalizing pos k with
  | nil =>
    rw [List.take_nil]
    exact h
  | cons lexeme rest ih =>
    cases k with
    | zero => trivial
    | succ k =>
      cases lexeme with
      | comment body text => exact ih h k
      | openEnd problem => exact ih h k
      | token token span => exact ⟨h.1, h.2.1, h.2.2.1, ih h.2.2.2 k⟩

/-- The lines of a score are counted exactly. However many lexemes of a movetext were read into the
tables, and also once the lines that are open are made to end, the walk over the tables comes to an
end. It visits no line twice, and visits just the lines from which the moves they branch from lead
to the main line: no stray, and no line that was opened inside a stray. The tables of the whole
movetext count as many lines as the tree that is read from it, whether or not all its parentheses
have a partner, and a walk through a game breadth first lists as many. -/
theorem Text.leafCount_exact (t : Text) (strict : Bool) (s : Span) :
    (∀ k, let f := (Filler.start s).run ((t.lexemes s).take k)
      ∀ a, a = f.arena ∨ a = f.finish s.stop →
        ∃ visited, a.Walk [0] [] visited ∧ a.LeafCount visited.length ∧
          visited.Nodup ∧ (∀ v, v ∈ visited ↔ a.LeadsToMain v) ∧
          ∀ v, a.IsStray v → v ∉ visited ∧ ∀ w, f.Inside v w → w ∉ visited) ∧
      (t.arena s).LeafCount (t.score strict s).mainLine.leafCount ∧
      ∀ g : Game, g.score.mainLine.leafCount = g.score.mainLine.breadthFirst.length := by
  have hlies (k : Nat) : ∃ pos, ((Filler.start s).run ((t.lexemes s).take k)).Lies t s pos := by
    obtain ⟨pos, h, -⟩ := (Filler.lies_start t s).exists_run ((t.laidOut_lexemes s).take k)
    exact ⟨pos, h⟩
  refine ⟨?_, ?_, fun g => g.score.mainLine.length_breadthFirst.symm⟩
  · intro k f a ha
    -- The tables are those of a whole pass or of one cut short, and have the same links.
    obtain ⟨pos, h⟩ := hlies k
    have hsame : f.arena.SameLinks a := by
      obtain rfl | rfl := ha
      · exact .refl _
      · exact f.sameLinks_finish s.stop
    obtain ⟨visited, hwalk, hcount, hvisits⟩ := (hsame.isTree h.grows.tree).exists_visits
    refine ⟨visited, hwalk, hcount, hvisits.once, hvisits.mem_iff, ?_⟩
    intro v hv
    have hout (w : Nat) (hw : w = v ∨ f.Inside v w) : w ∉ visited := fun hmem =>
      h.not_leadsToMain (hsame.isStray hv) hw (hsame.leadsToMain ((hvisits.mem_iff w).1 hmem))
    exact ⟨hout v (.inl rfl), fun w hw => hout w (.inr hw)⟩
  · obtain ⟨pos, h⟩ := hlies (t.lexemes s).length
    -- Followed by number and by structure, the walk comes to the same lines.
    rw [List.take_length] at h
    obtain ⟨r, hdraws, hline, -⟩ := (Filler.draws_start s).exists_run (Filler.grows_start s) strict
      s.stop (t.lexemes s)
    have hmain (line : LineNode)
        (hmain : ((Filler.start s).run (t.lexemes s)).arena.line? 0 = some line) :
        line.span.stop = s.stop := by
      obtain ⟨place, hplace, hspan⟩ := h.nesting.main
      cases (Arena.layout_line? hmain).symm.trans hplace
      exact congrArg Span.stop hspan
    obtain ⟨hid, hdrawn⟩ := hdraws.finish h.grows hmain
    have hscore : (t.score strict s).mainLine = Reader.closeAll r.line s.stop r.outer := hline
    rw [← hscore] at hid hdrawn
    obtain ⟨all, hall, hlength⟩ := Arena.length_walk_of_draws (a := t.arena s)
      (List.forall_mem_singleton.2 ⟨none, hdrawn⟩) []
    have htree : (t.arena s).IsTree := (Filler.sameLinks_finish _ s.stop).isTree h.grows.tree
    obtain ⟨visited, hwalk, hcount, -⟩ := htree.exists_visits
    rw [List.map_singleton, hid] at hall
    obtain rfl := hwalk.unique hall
    rw [hlength] at hcount
    simpa using hcount

/-- The movetext `(d4 (c4)) e4 (d5 (Nf3` with two parentheses that are never closed. -/
def Arena.unclosedSample : Text :=
  .ofBytes ⟨#[0x28, 0x64, 0x34, 0x20, 0x28, 0x63, 0x34, 0x29, 0x29, 0x20, 0x65, 0x34, 0x20, 0x28,
    0x64, 0x35, 0x20, 0x28, 0x4e, 0x66, 0x33]⟩

/-- Its first variation is a stray with another one inside, and the variations that are not closed
are counted. -/
theorem Text.leafCount_exact_of_stray :
    let t := Arena.unclosedSample
    let f := (Filler.start ⟨0, 21⟩).run (t.lexemes ⟨0, 21⟩)
    (t.arena ⟨0, 21⟩).IsStray 1 ∧ f.Inside 1 2 ∧ f.opened = [4, 3, 0] ∧
      ∃ visited, (t.arena ⟨0, 21⟩).Walk [0] [] visited ∧ visited.length = 3 ∧
        1 ∉ visited ∧ 2 ∉ visited := by
  intro t f
  have hstray : (t.arena ⟨0, 21⟩).IsStray 1 := by decide +kernel
  have hinside : f.Inside 1 2 := by decide +kernel
  obtain ⟨hwalk, htotal, -⟩ := t.leafCount_exact true ⟨0, 21⟩
  have hall := hwalk (t.lexemes ⟨0, 21⟩).length
  rw [List.take_length] at hall
  obtain ⟨visited, hvisited, hcount, -, -, hstrays⟩ := hall (t.arena ⟨0, 21⟩) (.inr rfl)
  obtain ⟨hself, hwithin⟩ := hstrays 1 hstray
  refine ⟨hstray, hinside, by decide +kernel, visited, hvisited, ?_, hself, hwithin 2 hinside⟩
  have hthree : (t.score true ⟨0, 21⟩).mainLine.leafCount = 3 := by decide +kernel
  exact (hcount.unique htotal).trans hthree

end Scorebook
