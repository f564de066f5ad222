import RetainedScene.Layout.Grid
import RetainedScene.Proofs.Checks
import RetainedScene.Proofs.Number.Order

/-!
# What is checked

The conditions of constraints, cells and grids stand here in the order in which they are looked at,
each with its error. The functions that look for the first thing wrong go through these lists.
-/

set_option autoImplicit false

namespace RetainedScene

open Scalar Binary32

namespace Constraint

/-- All but the maximum are finite, none is negative, and the maximum is a number. -/
structure Proper (c : Constraint Float32) : Prop where
  min_finite : c.min.isFinite = true
  min_nonneg : 0 ≤ c.min
  preferred_finite : c.preferred.isFinite = true
  preferred_nonneg : 0 ≤ c.preferred
  stretch_finite : c.stretch.isFinite = true
  stretch_nonneg : 0 ≤ c.stretch
  max_number : c.max.isNaN = false

structure Solvable (c : Constraint Float32) : Prop extends Proper c where
  range : c.min ≤ c.max

def checks (c : Constraint Float32) : List (Check LayoutError.Flaw) :=
  [⟨c.min.isFinite = true ∧ c.preferred.isFinite = true ∧ c.stretch.isFinite = true,
      .constraintNotFinite⟩,
    ⟨c.max.isNaN = false, .maxNaN⟩,
    ⟨0 ≤ c.min ∧ 0 ≤ c.preferred ∧ 0 ≤ c.max, .negativeSize⟩,
    ⟨0 ≤ c.stretch, .negativeStretch⟩,
    ⟨c.min ≤ c.max, .minExceedsMax⟩]

variable {c : Constraint Float32}

theorem allHold_checks : AllHold c.checks ↔ c.Solvable := by
  simp only [checks, allHold_cons, allHold_nil, and_true]
  constructor
  · rintro ⟨⟨hmin, hpreferred, hstretch⟩, hmax, ⟨hmin0, hpreferred0, -⟩, hstretch0, hrange⟩
    exact ⟨⟨hmin, hmin0, hpreferred, hpreferred0, hstretch, hstretch0, hmax⟩, hrange⟩
  · intro h
    exact ⟨⟨h.min_finite, h.preferred_finite, h.stretch_finite⟩, h.max_number,
      ⟨h.min_nonneg, h.preferred_nonneg, le_trans h.min_nonneg h.range⟩, h.stretch_nonneg, h.range⟩

theorem flaw?_decides (c : Constraint Float32) : Decides c.flaw? c.checks := by
  unfold flaw? checks
  refine .iteNot ?_ fun hfinite => ?_
  · rw [Bool.and_eq_true, Bool.and_eq_true, and_assoc]
    rfl
  obtain ⟨hmin, hpreferred, hstretch⟩ := hfinite
  have hmin := isNaN_of_isFinite hmin
  refine .ite ?_ fun hmax => ?_
  · simp [Scalar.isNaN]
  refine .ite ?_ fun _ => ?_
  · simp only [Bool.or_eq_true, decide_eq_true_eq, not_and_or, or_assoc]
    exact or_congr (lt_iff_not_le hmin rfl)
      (or_congr (lt_iff_not_le (isNaN_of_isFinite hpreferred) rfl) (lt_iff_not_le hmax rfl))
  refine .ite (lt_iff_not_le (isNaN_of_isFinite hstretch) rfl) fun _ => ?_
  exact .ite (lt_iff_not_le hmax hmin) fun _ => .of_allHold allHold_nil

theorem solvable_of_flaw? (h : c.flaw? = none) : c.Solvable :=
  allHold_checks.mp (c.flaw?_decides.accepts h)

end Constraint

/-- What the checks of a cell make sure of on one axis. -/
structure CellSpan.Fits (declared : Option UInt64) (s : CellSpan) : Prop where
  nonempty : s.count ≠ 0
  below : s.stop < UInt64.size
  within : ∀ count, declared = some count → s.stop ≤ count.toNat
  constraint : s.constraint.Solvable

namespace CellSpan

/-- Conditions of a cell on one axis. A stop that cannot be counted is named by the last number. -/
def checks (axis : Axis) (declared : Option UInt64) (cell : Nat) (s : CellSpan) :
    List (Check LayoutError) :=
  ⟨s.count ≠ 0, .emptySpan cell axis⟩ ::
    ⟨s.stop < UInt64.size, .spanOutOfBounds cell axis s.start.toNat (UInt64.size - 1)
      ((declared.map UInt64.toNat).getD (UInt64.size - 1))⟩ ::
    (declared.toList.map fun count =>
      ⟨s.stop ≤ count.toNat, .spanOutOfBounds cell axis s.start.toNat s.stop count.toNat⟩) ++
    s.constraint.checks.map (Check.map (.invalid (.cellConstraint axis cell)))

variable {axis : Axis} {declared : Option UInt64} {cell : Nat} {s : CellSpan}

theorem allHold_checks : AllHold (s.checks axis declared cell) ↔ s.Fits declared := by
  have hwithin : AllHold (declared.toList.map fun count => (⟨s.stop ≤ count.toNat,
        .spanOutOfBounds cell axis s.start.toNat s.stop count.toNat⟩ : Check LayoutError)) ↔
      ∀ count, declared = some count → s.stop ≤ count.toNat := by
    cases declared with
    | none => simp
    | some count => simp
  simp only [checks, List.cons_append, allHold_cons, allHold_append, allHold_map,
    Constraint.allHold_checks, hwithin]
  constructor
  · rintro ⟨hcount, hbelow, hdeclared, hconstraint⟩
    exact ⟨hcount, hbelow, hdeclared, hconstraint⟩
  · intro h
    exact ⟨h.nonempty, h.below, h.within, h.constraint⟩

theorem problem?_decides (axis : Axis) (declared : Option UInt64) (cell : Nat) (s : CellSpan) :
    Decides (s.problem? axis declared cell) (s.checks axis declared cell) := by
  have hconstraint :=
    s.constraint.flaw?_decides.map (LayoutError.invalid (.cellConstraint axis cell))
  unfold problem? checks
  refine .ite ?_ fun _ => .ite ?_ fun _ => ?_
  · simp
  · simp only [lastTrack, UInt64.size]
    omega
  · cases declared with
    | none => exact hconstraint
    | some count =>
      refine .ite ?_ fun _ => hconstraint
      simp

end CellSpan

namespace Grid

/-- What a grid is checked for before it is solved. -/
structure Checked (g : Grid) : Prop where
  extent_finite (axis : Axis) : (g.size.along axis).isFinite = true
  extent_nonneg (axis : Axis) : 0 ≤ g.size.along axis
  spacing_finite : g.spacing.isFinite = true
  spacing_nonneg : 0 ≤ g.spacing
  origin_finite (axis : Axis) : (g.origin.along axis).isFinite = true

/-- Conditions of the grid itself. -/
def ownChecks (g : Grid) : List (Check LayoutError) :=
  [⟨∀ axis, (g.size.along axis).isFinite = true ∧ 0 ≤ g.size.along axis,
      .invalid .gridSize .notFiniteOrNegative⟩,
    ⟨g.spacing.isFinite = true ∧ 0 ≤ g.spacing, .invalid .gridSpacing .notFiniteOrNegative⟩,
    ⟨∀ axis, (g.origin.along axis).isFinite = true, .invalid .gridOrigin .notFinite⟩]

theorem allHold_ownChecks {g : Grid} : AllHold g.ownChecks ↔ g.Checked := by
  simp only [ownChecks, allHold_cons, allHold_nil, and_true]
  constructor
  · rintro ⟨hsize, ⟨hfinite, hnonneg⟩, horigin⟩
    exact ⟨fun axis => (hsize axis).1, fun axis => (hsize axis).2, hfinite, hnonneg, horigin⟩
  · intro h
    exact ⟨fun axis => ⟨h.extent_finite axis, h.extent_nonneg axis⟩,
      ⟨h.spacing_finite, h.spacing_nonneg⟩, h.origin_finite⟩

theorem problem?_decides (g : Grid) : Decides g.problem? g.ownChecks := by
  have haxes : ∀ {P : Axis → Prop}, (∀ axis, P axis) ↔ P .horizontal ∧ P .vertical :=
    ⟨fun h => ⟨h _, h _⟩, fun h axis => by
      cases axis
      · exact h.1
      · exact h.2⟩
  unfold problem? ownChecks
  refine .iteNot ?_ fun _ => .iteNot ?_ fun _ => .iteNot ?_ fun _ => .of_allHold allHold_nil
  · rw [haxes, Vec2.isFinite]
    simp only [Bool.and_eq_true, decide_eq_true_eq]
    rw [and_assoc, and_and_and_comm]
    rfl
  · rw [Bool.and_eq_true, decide_eq_true_eq]
  · rw [haxes, Vec2.isFinite, Bool.and_eq_true]
    rfl

theorem checked_of_problem? {g : Grid} (h : g.problem? = none) : g.Checked :=
  allHold_ownChecks.mp (g.problem?_decides.accepts h)

/-- Conditions of the cells on one axis, cell after cell. -/
def cellChecks (axis : Axis) (declared : Option UInt64) (cell : Nat) (spans : List CellSpan) :
    List (Check LayoutError) :=
  (spans.zipIdx cell).flatMap fun (s, cell) => s.checks axis declared cell

theorem spanProblem?_decides (axis : Axis) (declared : Option UInt64) (cell : Nat)
    (spans : List CellSpan) :
    Decides (spanProblem? axis declared cell spans) (cellChecks axis declared cell spans) := by
  induction spans generalizing cell with
  | nil => exact .of_allHold allHold_nil
  | cons s rest ih =>
    have hor : spanProblem? axis declared cell (s :: rest) =
        (s.problem? axis declared cell).or (spanProblem? axis declared (cell + 1) rest) := by
      rw [spanProblem?]
      cases s.problem? axis declared cell <;> rfl
    rw [hor, cellChecks, List.zipIdx_cons, List.flatMap_cons]
    exact (s.problem?_decides axis declared cell).append fun _ => ih (cell + 1)

theorem allHold_cellChecks {axis : Axis} {declared : Option UInt64} {cell : Nat}
    {spans : List CellSpan} :
    AllHold (cellChecks axis declared cell spans) ↔ ∀ s ∈ spans, s.Fits declared := by
  induction spans generalizing cell with
  | nil => simp [cellChecks]
  | cons s rest ih =>
    rw [cellChecks, List.zipIdx_cons, List.flatMap_cons, allHold_append, List.forall_mem_cons]
    exact and_congr CellSpan.allHold_checks ih

theorem spanProblem?_eq_none_iff {axis : Axis} {declared : Option UInt64} {cell : Nat}
    {spans : List CellSpan} :
    spanProblem? axis declared cell spans = none ↔ ∀ s ∈ spans, s.Fits declared :=
  (spanProblem?_decides ..).eq_none_iff.trans allHold_cellChecks

theorem fits_of_spanProblem? {axis : Axis} {declared : Option UInt64} {cell : Nat}
    {spans : List CellSpan} (h : spanProblem? axis declared cell spans = none) :
    ∀ s ∈ spans, s.Fits declared :=
  spanProblem?_eq_none_iff.mp h

end Grid

end RetainedScene
