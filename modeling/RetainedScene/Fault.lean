import RetainedScene.Item.Kind

/-!
# Faults

A fault is a promise that the caller broke. It ends the operation at once, unlike a layout that
a solver refuses, which is an ordinary answer.
-/

set_option autoImplicit false

namespace RetainedScene

inductive Fault
  /-- A position past the end of a list. -/
  | indexOutOfRange
  /-- A number was to be brought between bounds that are out of order or not numbers. -/
  | clampBounds
  /-- A repeater was to change while a walk is passing through it. -/
  | repeaterInUse
  /-- A model of a bare count was read past its end. -/
  | beyondCount (index count : Nat)
  /-- An entry of a capability table was called on an item of another kind. -/
  | foreignItem (kind : Kind)
  /-- A walk was to start below a node that stands for a repeater. -/
  | dynamicStart (index : Nat)
  /-- The end of a child range does not fit in 32 bits. -/
  | childRangeOverflow
  /-- The columns of a grid of instances were counted as none. -/
  | noColumns
  /-- A path item was expected and another kind was found. -/
  | notAPath
  /-- A walk went deeper than its bound. -/
  | tooDeep
deriving DecidableEq, Repr

def Fault.message : Fault → String
  | .indexOutOfRange => "index out of range"
  | .clampBounds => "clamp bounds out of order"
  | .repeaterInUse => "repeater in use"
  | .beyondCount index count => s!"IntModel index {index} out of range 0..{count}"
  | .foreignItem kind =>
    let name := kind.name
    s!"`{name}` capability table used on a foreign item"
  | .dynamicStart index => s!"VisitFrom::ChildrenOf({index}) names a dynamic node"
  | .childRangeOverflow => "attempt to add with overflow"
  | .noColumns => "attempt to divide by zero"
  | .notAPath => "not a path"
  | .tooDeep => "walk too deep"

end RetainedScene
