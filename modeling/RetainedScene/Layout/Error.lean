import RetainedScene.Fault
import RetainedScene.Layout.Constraint

/-!
# Refused layouts

A solver answers with all placements or with the first thing that is wrong.
-/

set_option autoImplicit false

namespace RetainedScene

inductive LayoutError.Subject
  | gridSize
  | gridSpacing
  | gridOrigin
  | cellConstraint (axis : Axis) (cell : Nat)
  | pathPoint (index : Nat)
  | pathLength
  | pathOffset
  | pathItemSize (item : Nat)
deriving DecidableEq, Repr

inductive LayoutError.Flaw
  | notFinite
  | notFiniteOrNegative
  | constraintNotFinite
  | maxNaN
  | negativeSize
  | negativeStretch
  | minExceedsMax
deriving DecidableEq, Repr

inductive LayoutError
  | emptySpan (cell : Nat) (axis : Axis)
  | spanOutOfBounds (cell : Nat) (axis : Axis) (start stop declared : Nat)
  | invalid (subject : LayoutError.Subject) (flaw : LayoutError.Flaw)
  | emptyPath
deriving DecidableEq, Repr

namespace LayoutError

def Subject.text : Subject → String
  | .gridSize => "grid size"
  | .gridSpacing => "grid spacing"
  | .gridOrigin => "grid origin"
  | .cellConstraint axis cell => axis.name ++ s!" constraint of cell {cell}"
  | .pathPoint index => s!"path point {index}"
  | .pathLength => "path length"
  | .pathOffset => "path offset"
  | .pathItemSize item => s!"size of path item {item}"

def Flaw.text : Flaw → String
  | .notFinite => "must be finite"
  | .notFiniteOrNegative => "must be finite and not negative"
  | .constraintNotFinite => "min, preferred and stretch must be finite"
  | .maxNaN => "max is NaN"
  | .negativeSize => "sizes must not be negative"
  | .negativeStretch => "stretch must not be negative"
  | .minExceedsMax => "min exceeds max"

def message : LayoutError → String
  | .emptySpan cell axis => s!"cell {cell}: " ++ axis.name ++ " span is zero"
  | .spanOutOfBounds cell axis start stop declared =>
    s!"cell {cell}: " ++ axis.name ++ s!" tracks {start}..{stop} exceed the {declared} declared"
  | .invalid subject flaw => "invalid " ++ subject.text ++ ": " ++ flaw.text
  | .emptyPath => "path has no control points"

end LayoutError

open Scalar in
/-- The first thing wrong with a constraint. A maximum may be infinite. -/
def Constraint.flaw? {α : Type} [Scalar α] (c : Constraint α) : Option LayoutError.Flaw :=
  if !(isFinite c.min && isFinite c.preferred && isFinite c.stretch) then some .constraintNotFinite
  else if isNaN c.max then some .maxNaN
  else if c.min < zero || c.preferred < zero || c.max < zero then some .negativeSize
  else if c.stretch < zero then some .negativeStretch
  else if c.max < c.min then some .minExceedsMax
  else none

/-- How solving a layout ends without placements. -/
inductive LayoutFailure
  | refused (error : LayoutError)
  | fault (fault : Fault)
deriving DecidableEq, Repr

end RetainedScene
