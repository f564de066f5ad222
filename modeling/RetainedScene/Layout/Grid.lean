import RetainedScene.Geometry.Rect
import RetainedScene.Layout.Error
import RetainedScene.Layout.Tracks

/-!
# Grids

Cells lie on columns and rows. The two axes are solved apart, by the same functions: the cells'
spans on an axis are checked, the constraints of cells on a single track are merged into one
constraint per track, and the tracks share the space that the gaps leave.
-/

set_option autoImplicit false

namespace RetainedScene

open Scalar

/-- The tracks that a cell takes up on one axis, and what it asks of them. -/
structure CellSpan where
  start : UInt64
  count : UInt64
  constraint : Constraint Float32
deriving DecidableEq

structure Cell where
  columns : CellSpan
  rows : CellSpan
deriving DecidableEq

structure Grid where
  cells : List Cell
  size : Vec2
  spacing : Float32
  origin : Vec2
  /-- A declared count adds empty tracks, and cells must not reach past it. -/
  columns : Option UInt64
  rows : Option UInt64
deriving DecidableEq

namespace CellSpan

def stop (s : CellSpan) : Nat :=
  s.start.toNat + s.count.toNat

def lastTrack : Nat := UInt64.size - 1

def problem? (axis : Axis) (declared : Option UInt64) (cell : Nat) (s : CellSpan) :
    Option LayoutError :=
  if s.count = 0 then some (.emptySpan cell axis)
  else if lastTrack < s.stop then
    some (.spanOutOfBounds cell axis s.start.toNat lastTrack
      ((declared.map UInt64.toNat).getD lastTrack))
  else if declared.any (·.toNat < s.stop) then
    some (.spanOutOfBounds cell axis s.start.toNat s.stop
      ((declared.map UInt64.toNat).getD lastTrack))
  else s.constraint.flaw?.map (.invalid (.cellConstraint axis cell))

end CellSpan

namespace Cell

def single (row column : UInt64) : Cell :=
  ⟨⟨column, 1, .free⟩, ⟨row, 1, .free⟩⟩

def spanning (c : Cell) (rows columns : UInt64) : Cell :=
  ⟨{ c.columns with count := columns }, { c.rows with count := rows }⟩

def withHorizontal (c : Cell) (constraint : Constraint Float32) : Cell :=
  { c with columns := { c.columns with constraint } }

def withVertical (c : Cell) (constraint : Constraint Float32) : Cell :=
  { c with rows := { c.rows with constraint } }

def withHints (c : Cell) (info : SizeHints) : Cell :=
  (c.withHorizontal (.ofHints info .horizontal)).withVertical (.ofHints info .vertical)

def along (c : Cell) : Axis → CellSpan
  | .horizontal => c.columns
  | .vertical => c.rows

end Cell

/-- The smallest range that all of the merged constraints allow, and their largest wishes. -/
def Constraint.merge (a b : Constraint Float32) : Constraint Float32 :=
  ⟨greater a.min b.min, lesser a.max b.max, greater a.preferred b.preferred,
    greater a.stretch b.stretch⟩

namespace Grid

def declared (g : Grid) : Axis → Option UInt64
  | .horizontal => g.columns
  | .vertical => g.rows

def spans (g : Grid) (axis : Axis) : List CellSpan :=
  g.cells.map (Cell.along · axis)

/-- Cells are checked in order, each for everything before the next. -/
def spanProblem? (axis : Axis) (declared : Option UInt64) :
    (cell : Nat) → List CellSpan → Option LayoutError
  | _, [] => none
  | cell, s :: rest =>
    match s.problem? axis declared cell with
    | some error => some error
    | none => spanProblem? axis declared (cell + 1) rest

def trackCount (declared : Option UInt64) (spans : List CellSpan) : Nat :=
  match declared with
  | some count => count.toNat
  | none => spans.foldl (fun count s => max count s.stop) 0

/-- Constraint of one track: that of the cells which lie on this track alone, merged, or a free
    one where there are none. Where they leave no range the minimum wins. -/
def trackConstraint (spans : List CellSpan) (track : Nat) : Constraint Float32 :=
  let single := spans.filter fun s => s.count == 1 && s.start.toNat == track
  let merged :=
    match single.map CellSpan.constraint with
    | [] => Constraint.free
    | first :: rest => rest.foldl Constraint.merge first
  { merged with max := greater merged.max merged.min }

/-- A cell on a single track needs that track to be there. -/
def trackConstraints (count : Nat) (spans : List CellSpan) :
    Except Fault (List (Constraint Float32)) :=
  if spans.all fun s => s.count != 1 || s.start.toNat < count then
    .ok ((List.range count).map (trackConstraint spans))
  else .error .indexOutOfRange

def offsets (spacing : Float32) : (cursor : Float32) → List Float32 → List Float32
  | _, [] => []
  | cursor, size :: rest => cursor :: offsets spacing (cursor + (size + spacing)) rest

structure Tracks where
  sizes : List Float32
  offsets : List Float32
  spacing : Float32

/-- Offset and extent of the tracks that a cell takes up, with the gaps between them. -/
def Tracks.place (t : Tracks) (s : CellSpan) : Except Fault (Float32 × Float32) :=
  match t.offsets[s.start.toNat]? with
  | none => .error .indexOutOfRange
  | some offset =>
    if t.sizes.length < s.stop then .error .indexOutOfRange
    else
      let sizes := (t.sizes.drop s.start.toNat).take s.count.toNat
      .ok (offset, total sizes + t.spacing * Float32.ofNat (s.count.toNat - 1))

/-- Solves one axis, on which the grid has a given extent. Gaps are paid for first. -/
def solveAxis (axis : Axis) (declared : Option UInt64) (spans : List CellSpan)
    (extent spacing : Float32) : Except LayoutFailure Tracks := do
  if let some error := spanProblem? axis declared 0 spans then
    throw (.refused error)
  let constraints ← (trackConstraints (trackCount declared spans) spans).mapError .fault
  let gaps := Float32.ofNat (constraints.length - 1)
  let available := greater (extent - spacing * gaps) 0
  let sizes ← (fillTracks constraints available).mapError .fault
  return ⟨sizes, offsets spacing 0 sizes, spacing⟩

/-- The solved tracks of an axis depend on nothing that the grid has on the other one. -/
def tracks (g : Grid) (axis : Axis) : Except LayoutFailure Tracks :=
  solveAxis axis (g.declared axis) (g.spans axis) (g.size.along axis) g.spacing

def problem? (g : Grid) : Option LayoutError :=
  if !(g.size.isFinite && 0 ≤ g.size.x && 0 ≤ g.size.y) then
    some (.invalid .gridSize .notFiniteOrNegative)
  else if !(g.spacing.isFinite && 0 ≤ g.spacing) then
    some (.invalid .gridSpacing .notFiniteOrNegative)
  else if !g.origin.isFinite then some (.invalid .gridOrigin .notFinite)
  else none

structure Solution where
  columnSizes : List Float32
  rowSizes : List Float32
  rects : List Rect

/-- Columns by rows, as written in the log. -/
def Solution.shape? (s : Solution) : Option String :=
  if s.rects.isEmpty then none
  else
    let columns := s.columnSizes.length
    let rows := s.rowSizes.length
    some s!"{columns}x{rows}"

def cellRect (origin : Vec2) (columns rows : Tracks) (c : Cell) : Except Fault Rect := do
  let (x, width) ← columns.place c.columns
  let (y, height) ← rows.place c.rows
  return ⟨⟨origin.x + x, origin.y + y⟩, ⟨width, height⟩⟩

def solve (g : Grid) : Except LayoutFailure Solution := do
  if let some error := g.problem? then
    throw (.refused error)
  if g.cells.isEmpty then
    return ⟨[], [], []⟩
  let columns ← g.tracks .horizontal
  let rows ← g.tracks .vertical
  let rects ← (g.cells.mapM (cellRect g.origin columns rows)).mapError .fault
  return ⟨columns.sizes, rows.sizes, rects⟩

end Grid

end RetainedScene
