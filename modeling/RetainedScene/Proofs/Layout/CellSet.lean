import RetainedScene.Proofs.Layout.Axes
import RetainedScene.Proofs.Number.Zeros

/-!
# Cells as a set

Merged constraints are the mildest ones that ask for as much as each of the constraints that went
into them. So they do not depend on the order of the cells, nor on how often one of them is there.
Two zeros of opposite signs would be an exception: of these the merge keeps the later one.
-/

set_option autoImplicit false

namespace RetainedScene

open Scalar Binary32

namespace Constraint

/-- None of the numbers is the negative zero. -/
structure PlainZeros (c : Constraint Float32) : Prop where
  min : c.min ≠ -0
  max : c.max ≠ -0
  preferred : c.preferred ≠ -0
  stretch : c.stretch ≠ -0

/-- `c` leaves every range that `d` leaves, and wishes for no more. -/
structure Milder (c d : Constraint Float32) : Prop where
  min : c.min ≤ d.min
  max : d.max ≤ c.max
  preferred : c.preferred ≤ d.preferred
  stretch : c.stretch ≤ d.stretch

variable {a b c d : Constraint Float32}

theorem Proper.milder_refl (h : c.Proper) : c.Milder c where
  min := le_refl (isNaN_of_isFinite h.min_finite)
  max := le_refl h.max_number
  preferred := le_refl (isNaN_of_isFinite h.preferred_finite)
  stretch := le_refl (isNaN_of_isFinite h.stretch_finite)

theorem Milder.trans (h : a.Milder b) (h' : b.Milder c) : a.Milder c where
  min := le_trans h.min h'.min
  max := le_trans h'.max h.max
  preferred := le_trans h.preferred h'.preferred
  stretch := le_trans h.stretch h'.stretch

theorem Milder.antisymm (h : c.Milder d) (h' : d.Milder c) (hc : c.PlainZeros) (hd : d.PlainZeros) :
    c = d := by
  have hmin := eq_of_le_of_le hc.min hd.min h.min h'.min
  have hmax := eq_of_le_of_le hc.max hd.max h'.max h.max
  have hpreferred := eq_of_le_of_le hc.preferred hd.preferred h.preferred h'.preferred
  have hstretch := eq_of_le_of_le hc.stretch hd.stretch h.stretch h'.stretch
  obtain ⟨cmin, cmax, cpreferred, cstretch⟩ := c
  obtain ⟨dmin, dmax, dpreferred, dstretch⟩ := d
  subst hmin hmax hpreferred hstretch
  rfl

/-! ### Merging is a least upper bound -/

section

variable {x y : Float32} (hx : x.isNaN = false) (hy : y.isNaN = false)

include hx hy

theorem le_greater_left : x ≤ greater x y := by
  rw [greater, if_neg (by simpa [Scalar.isNaN] using hy)]
  split_ifs with hlt
  · exact le_refl hx
  · exact le_of_not_lt hy hx hlt

theorem lesser_le : lesser x y ≤ x ∧ lesser x y ≤ y := by
  rw [lesser, if_neg (by simpa [Scalar.isNaN] using hy)]
  split_ifs with hlt
  · exact ⟨le_refl hx, le_of_lt hlt⟩
  · exact ⟨le_of_not_lt hx hy hlt, le_refl hy⟩

end

theorem PlainZeros.merge (ha : a.PlainZeros) (hb : b.PlainZeros) : (a.merge b).PlainZeros where
  min := greater_of (P := (· ≠ -0)) ha.min hb.min
  max := lesser_of (P := (· ≠ -0)) ha.max hb.max
  preferred := greater_of (P := (· ≠ -0)) ha.preferred hb.preferred
  stretch := greater_of (P := (· ≠ -0)) ha.stretch hb.stretch

theorem Proper.milder_merge (ha : a.Proper) (hb : b.Proper) :
    a.Milder (a.merge b) ∧ b.Milder (a.merge b) := by
  have hamin := isNaN_of_isFinite ha.min_finite
  have hbmin := isNaN_of_isFinite hb.min_finite
  have hapreferred := isNaN_of_isFinite ha.preferred_finite
  have hbpreferred := isNaN_of_isFinite hb.preferred_finite
  have hastretch := isNaN_of_isFinite ha.stretch_finite
  have hbstretch := isNaN_of_isFinite hb.stretch_finite
  have hmax := lesser_le ha.max_number hb.max_number
  exact ⟨⟨le_greater_left hamin hbmin, hmax.1, le_greater_left hapreferred hbpreferred,
      le_greater_left hastretch hbstretch⟩,
    ⟨le_greater hbmin, hmax.2, le_greater hbpreferred, le_greater hbstretch⟩⟩

theorem Milder.merge (ha : a.Milder c) (hb : b.Milder c) : (a.merge b).Milder c where
  min := greater_of (P := (· ≤ c.min)) ha.min hb.min
  max := lesser_of (P := (c.max ≤ ·)) ha.max hb.max
  preferred := greater_of (P := (· ≤ c.preferred)) ha.preferred hb.preferred
  stretch := greater_of (P := (· ≤ c.stretch)) ha.stretch hb.stretch

/-- `c` asks for as much as each of some constraints, and for no more than it takes. -/
structure Least (constraints : List (Constraint Float32)) (c : Constraint Float32) : Prop where
  proper : c.Proper
  plain : c.PlainZeros
  above : ∀ d ∈ constraints, d.Milder c
  least : ∀ bound, (∀ d ∈ constraints, d.Milder bound) → c.Milder bound

variable {constraints rest : List (Constraint Float32)}

theorem Least.single (proper : c.Proper) (plain : c.PlainZeros) : Least [c] c where
  proper := proper
  plain := plain
  above d hd := by
    rw [List.mem_singleton.mp hd]
    exact proper.milder_refl
  least bound h := h c List.mem_cons_self

theorem Least.merge (h : Least constraints c) (proper : d.Proper) (plain : d.PlainZeros) :
    Least (constraints ++ [d]) (c.merge d) := by
  obtain ⟨hc, hd⟩ := h.proper.milder_merge proper
  refine ⟨h.proper.merge proper, h.plain.merge plain, fun e he => ?_, fun bound hbound => ?_⟩
  · rcases List.mem_append.mp he with he | he
    · exact (h.above e he).trans hc
    · rw [List.mem_singleton.mp he]
      exact hd
  · rw [List.forall_mem_append] at hbound
    exact (h.least bound hbound.1).merge (hbound.2 d List.mem_cons_self)

theorem Least.foldl (h : Least constraints c) (hrest : ∀ d ∈ rest, d.Proper ∧ d.PlainZeros) :
    Least (constraints ++ rest) (rest.foldl Constraint.merge c) := by
  induction rest generalizing constraints c with
  | nil => rwa [List.append_nil]
  | cons d rest ih =>
    obtain ⟨⟨proper, plain⟩, hrest⟩ := List.forall_mem_cons.mp hrest
    rw [List.append_cons, List.foldl_cons]
    exact ih (h.merge proper plain) hrest

/-- The members of a list settle what is least above them. -/
theorem Least.unique {constraints' : List (Constraint Float32)} (h : Least constraints c)
    (h' : Least constraints' d) (same : ∀ e, e ∈ constraints ↔ e ∈ constraints') : c = d := by
  have hle : c.Milder d := h.least d fun e he => h'.above e ((same e).mp he)
  have hge : d.Milder c := h'.least c fun e he => h.above e ((same e).mpr he)
  exact hle.antisymm hge h.plain h'.plain

/-- The constraint of a track before its maximum is lifted. -/
def merged : List (Constraint Float32) → Constraint Float32
  | [] => free
  | first :: rest => rest.foldl Constraint.merge first

theorem merged_least (hne : constraints ≠ []) (h : ∀ c ∈ constraints, c.Proper ∧ c.PlainZeros) :
    Least constraints (merged constraints) := by
  cases constraints with
  | nil => exact absurd rfl hne
  | cons first rest =>
    obtain ⟨⟨proper, plain⟩, hrest⟩ := List.forall_mem_cons.mp h
    exact (Least.single proper plain).foldl hrest

theorem merged_congr {constraints' : List (Constraint Float32)}
    (same : ∀ c, c ∈ constraints ↔ c ∈ constraints')
    (h : ∀ c ∈ constraints, c.Proper ∧ c.PlainZeros) : merged constraints = merged constraints' := by
  by_cases hne : constraints = []
  · have hempty : constraints' = [] := by
      refine List.eq_nil_iff_forall_not_mem.mpr fun c hc => ?_
      rw [← same c, hne] at hc
      exact List.not_mem_nil hc
    rw [hne, hempty]
  · have hne' : constraints' ≠ [] := by
      obtain ⟨c, hc⟩ := List.exists_mem_of_ne_nil constraints hne
      exact List.ne_nil_of_mem ((same c).mp hc)
    exact (merged_least hne h).unique
      (merged_least hne' fun c hc => h c ((same c).mpr hc)) same

end Constraint

namespace Grid

variable {declared : Option UInt64} {spans spans' : List CellSpan}

theorem trackConstraint_merged (spans : List CellSpan) (track : Nat) :
    trackConstraint spans track =
      let c := Constraint.merged ((spans.filter fun s =>
        s.count == 1 && s.start.toNat == track).map CellSpan.constraint)
      { c with max := greater c.max c.min } := by
  unfold trackConstraint Constraint.merged
  rfl

theorem trackConstraint_set (same : ∀ s, s ∈ spans ↔ s ∈ spans')
    (h : ∀ s ∈ spans, s.constraint.Proper ∧ s.constraint.PlainZeros) (track : Nat) :
    trackConstraint spans track = trackConstraint spans' track := by
  rw [trackConstraint_merged, trackConstraint_merged, Constraint.merged_congr]
  · intro c
    simp only [List.mem_map, List.mem_filter, same]
  · intro c hc
    obtain ⟨s, hs, rfl⟩ := List.mem_map.mp hc
    exact h s (List.mem_filter.mp hs).1

theorem foldl_stop_le {count bound : Nat} (hcount : count ≤ bound)
    (h : ∀ s ∈ spans, s.stop ≤ bound) :
    spans.foldl (fun count s => max count s.stop) count ≤ bound := by
  induction spans generalizing count with
  | nil => exact hcount
  | cons s rest ih =>
    obtain ⟨hs, hrest⟩ := List.forall_mem_cons.mp h
    exact ih (Nat.max_le.mpr ⟨hcount, hs⟩) hrest

theorem trackCount_set (same : ∀ s, s ∈ spans ↔ s ∈ spans') :
    trackCount declared spans = trackCount declared spans' := by
  cases declared with
  | some count => rfl
  | none =>
    have hle := foldl_stop_le (Nat.zero_le _)
      fun s hs => (le_foldl_stop spans' 0).2 s ((same s).mp hs)
    have hge := foldl_stop_le (Nat.zero_le _)
      fun s hs => (le_foldl_stop spans 0).2 s ((same s).mpr hs)
    exact Nat.le_antisymm hle hge

variable {g : Grid} {cells : List Cell}

theorem mem_spans_iff (same : ∀ cell, cell ∈ cells ↔ cell ∈ g.cells) (axis : Axis) (s : CellSpan) :
    s ∈ g.spans axis ↔ s ∈ ({ g with cells } : Grid).spans axis := by
  simp only [spans, List.mem_map, same]

theorem tracks_set (same : ∀ cell, cell ∈ cells ↔ cell ∈ g.cells) {axis : Axis}
    (zeros : ∀ cell ∈ g.cells, (cell.along axis).constraint.PlainZeros)
    (fits : ∀ s ∈ g.spans axis, s.Fits (g.declared axis)) :
    g.tracks axis = ({ g with cells } : Grid).tracks axis := by
  have hspans := mem_spans_iff same axis
  refine solveAxis_congr fits (fun s hs => fits s ((hspans s).mpr hs)) (trackCount_set hspans)
    (trackConstraint_set hspans fun s hs => ⟨(fits s hs).constraint.toProper, ?_⟩) _ _
  obtain ⟨cell, hcell, rfl⟩ := List.mem_map.mp hs
  exact zeros cell hcell

theorem accepted_set (same : ∀ cell, cell ∈ cells ↔ cell ∈ g.cells) :
    (∃ solution, g.solve = .ok solution) ↔
      ∃ solution, ({ g with cells } : Grid).solve = .ok solution := by
  rw [accepted_iff, accepted_iff]
  refine and_congr ⟨fun h => ⟨h.1, h.2, h.3, h.4, h.5⟩, fun h => ⟨h.1, h.2, h.3, h.4, h.5⟩⟩ ?_
  exact forall_congr' fun axis => forall_congr' fun s =>
    imp_congr_left (mem_spans_iff same axis s)

/-- Grids that differ in the order of their cells, and in how often they have one, are accepted
    together, and give each cell one and the same rectangle. -/
theorem solve_cellSet (g : Grid) (cells : List Cell) (same : ∀ cell, cell ∈ cells ↔ cell ∈ g.cells)
    (zeros : ∀ cell ∈ g.cells, ∀ axis, (cell.along axis).constraint.PlainZeros) :
    ((∃ solution, g.solve = .ok solution) ↔
      ∃ solution, ({ g with cells } : Grid).solve = .ok solution) ∧
    ∀ solution solution', g.solve = .ok solution →
      ({ g with cells } : Grid).solve = .ok solution' →
        ∃ place : Cell → Rect, solution.rects = g.cells.map place ∧
          solution'.rects = cells.map place := by
  refine ⟨accepted_set same, fun solution solution' h h' => ?_⟩
  obtain ⟨place, hplace⟩ := exists_places h
  refine ⟨place, rects_eq_map h hplace, rects_eq_map h' fun cell hcell axis => ?_⟩
  have hmem := (same cell).mp hcell
  obtain ⟨t, placed, ht, hplaced, halong⟩ := hplace cell hmem axis
  have htracks := tracks_set same (fun cell hcell => zeros cell hcell axis) (fits_of_tracks ht)
  exact ⟨t, placed, htracks.symm.trans ht, hplaced, halong⟩

/-- A heading across both columns, over a short and a long label that share the first of them. -/
def labelGrid : Grid where
  cells := [(Cell.single 0 0).spanning 1 2, (Cell.single 1 0).withHorizontal (.fixed 80),
    (Cell.single 2 0).withHorizontal (.preferring 120), Cell.single 1 1]
  size := ⟨320, 200⟩
  spacing := 4
  origin := .zero
  columns := none
  rows := none

/-- The long label comes first, and is there twice. -/
def relabeledCells : List Cell :=
  [(Cell.single 2 0).withHorizontal (.preferring 120), Cell.single 1 1,
    (Cell.single 1 0).withHorizontal (.fixed 80),
    (Cell.single 2 0).withHorizontal (.preferring 120), (Cell.single 0 0).spanning 1 2]

theorem mem_relabeledCells (cell : Cell) : cell ∈ relabeledCells ↔ cell ∈ labelGrid.cells := by
  simp only [relabeledCells, labelGrid, List.mem_cons, List.not_mem_nil, or_false]
  tauto

theorem labelGrid_plainZeros : ∀ cell ∈ labelGrid.cells, ∀ axis,
    (cell.along axis).constraint.PlainZeros := by
  have hplain : (labelGrid.cells.all fun cell => [Axis.horizontal, .vertical].all fun axis =>
      let c := (cell.along axis).constraint
      [c.min, c.max, c.preferred, c.stretch].all (decide <| · ≠ -0)) = true := by decide +kernel
  intro cell hcell axis
  have h := List.all_eq_true.mp hplain cell hcell
  have haxis := List.all_eq_true.mp h axis (by cases axis <;> decide)
  simp only [List.all_cons, List.all_nil, Bool.and_true, Bool.and_eq_true,
    decide_eq_true_eq] at haxis
  obtain ⟨hmin, hmax, hpreferred, hstretch⟩ := haxis
  exact ⟨hmin, hmax, hpreferred, hstretch⟩

theorem labelGrid_cellSet : (∀ cell, cell ∈ relabeledCells ↔ cell ∈ labelGrid.cells) ∧
    (∀ cell ∈ labelGrid.cells, ∀ axis, (cell.along axis).constraint.PlainZeros) ∧
    ∃ solution solution' place, labelGrid.solve = .ok solution ∧
      ({ labelGrid with cells := relabeledCells } : Grid).solve = .ok solution' ∧
      solution.rects.map (Rect.along · .horizontal) = [(0, 320), (0, 80), (0, 80), (84, 236)] ∧
      solution.rects = labelGrid.cells.map place ∧
      solution'.rects = relabeledCells.map place := by
  obtain ⟨solution, hsolve, hwidths⟩ := exists_solution (g := labelGrid) (b := true)
    (P := fun s => s.rects.map (Rect.along · .horizontal) = [(0, 320), (0, 80), (0, 80), (84, 236)])
    (by decide +kernel)
  have hset := solve_cellSet labelGrid relabeledCells mem_relabeledCells labelGrid_plainZeros
  obtain ⟨solution', hsolve'⟩ := hset.1.mp ⟨solution, hsolve⟩
  obtain ⟨place, hplace, hplace'⟩ := hset.2 solution solution' hsolve hsolve'
  exact ⟨mem_relabeledCells, labelGrid_plainZeros, solution, solution', place, hsolve, hsolve',
    of_decide_eq_true hwidths, hplace, hplace'⟩

end Grid

end RetainedScene
