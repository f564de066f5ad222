import RetainedScene.Layout.Grid
import RetainedScene.Scene.Basic

/-!
# Arranging the instances of a repeater

The first item of each instance is placed by one of the solvers, on a grid or along a path.
Where the solver refuses, nothing moves.
-/

set_option autoImplicit false

namespace RetainedScene

namespace Scene

def firstItems (s : Scene) (a : RepeaterAddress) : Except Fault (List Item) :=
  match s.root.repeater? a with
  | none => .error .indexOutOfRange
  | some r => r.instances.mapM fun c =>
    match c.items with
    | [] => .error .indexOutOfRange
    | first :: _ => .ok first

def placeFirstItems (s : Scene) (a : RepeaterAddress) (rects : List Rect) : Scene :=
  { s with
    root := (rects.zipIdx).foldl
      (fun root (rect, position) =>
        root.modifyItem (a.instancePlace position) 0 (·.withGeometry rect))
      s.root }

/-- Row by row, with as many instances in a row as there are columns. -/
def gridCells (columns : UInt64) (items : List Item) : Except Fault (List Cell) :=
  if columns = 0 && !items.isEmpty then .error .noColumns
  else .ok (items.mapIdx fun position item =>
    (Cell.single (UInt64.ofNat position / columns) (UInt64.ofNat position % columns)).withHints
      item.sizeHints)

structure Arranged where
  scene : Scene
  rects : List Rect

def arrangeGrid (s : Scene) (a : RepeaterAddress) (columns : UInt64) (size origin : Vec2)
    (spacing : Float32) : Except LayoutFailure Arranged := do
  let items ← (s.firstItems a).mapError .fault
  let cells ← (gridCells columns items).mapError .fault
  let solution ← Grid.solve ⟨cells, size, spacing, origin, some columns, none⟩
  return ⟨s.placeFirstItems a solution.rects, solution.rects⟩

/-- How instances are put along a path. Without a size of their own they take the preferred
    sizes of their first items. -/
structure AlongPath where
  size : Option Vec2
  spacing : PathSpacing
  length : Option Float32
  offset : Float32

def pathItem (s : Scene) (place : Place) (slot : Nat) : Except Fault PathItem :=
  match s.root.item? place slot with
  | some (.path path) => .ok path
  | some _ => .error .notAPath
  | none => .error .indexOutOfRange

/-- Puts the instances of a repeater along a path item. -/
def arrangeAlong (s : Scene) (place : Place) (slot : Nat) (a : RepeaterAddress)
    (how : AlongPath) : Except LayoutFailure Arranged := do
  let path ← (s.pathItem place slot).mapError .fault
  let items ← (s.firstItems a).mapError .fault
  let sizes := items.map fun item => how.size.getD item.sizeHints.preferred
  let solution ← PathLayout.solve { path.layout with
    items := sizes
    spacing := how.spacing
    length := how.length
    offset := how.offset }
  let rects := List.zipWith Placement.rect solution.placements sizes
  return ⟨s.placeFirstItems a rects, rects⟩

end Scene

end RetainedScene
