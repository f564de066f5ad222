import RetainedScene.Geometry.Rect
import RetainedScene.Layout.Error

/-!
# Items along a path

A path is a polyline through control points, closed or open. Each item gets a fraction of the
usable length, which becomes a distance walked from the start, which is then looked for on the
segments.
-/

set_option autoImplicit false

namespace RetainedScene

open Scalar

/-- How items are distributed along a path: at equal distances, or by their widths. -/
inductive PathSpacing
  | even
  | weighted
deriving DecidableEq, Repr

structure PathLayout where
  points : List Vec2
  items : List Vec2
  spacing : PathSpacing
  /-- Length that the items are spread over, at most that of the path, and all of it where
      none is given. -/
  length : Option Float32
  offset : Float32
  closed : Bool
deriving DecidableEq

structure Placement where
  center : Vec2
  angle : Float32
deriving DecidableEq

def Placement.rect (p : Placement) (size : Vec2) : Rect :=
  .around p.center size

structure Segment where
  start : Vec2
  stop : Vec2
deriving DecidableEq

namespace Segment

def length (s : Segment) : Float32 :=
  s.start.distance s.stop

def angle (s : Segment) : Float32 :=
  (s.stop - s.start).angle

def between : List Vec2 → List Segment
  | a :: b :: rest => ⟨a, b⟩ :: between (b :: rest)
  | _ => []

/-- A closed path of more than one point goes on from the last point to the first. -/
def chain (points : List Vec2) (closed : Bool) : List Segment :=
  if closed && 1 < points.length then between (points ++ points.take 1) else between points

theorem length_between (points : List Vec2) : (between points).length = points.length - 1 := by
  induction points with
  | nil => rfl
  | cons a rest ih =>
    cases rest with
    | nil => rfl
    | cons b more => simpa [between] using ih

end Segment

/-- Where a distance along the path leads: to a part of a segment, past the last segment, or
    nowhere where all segments have no length. -/
inductive Spot
  | on (index : Nat) (segment : Segment) (t : Float32)
  | past (segment : Segment)
  | nowhere

/-- Looks for the distance `arc` on segments from number `index` on, `walked` along the path.
    Segments without length are never picked. -/
def Spot.find (arc : Float32) :
    (index : Nat) → (walked : Float32) → (last : Option Segment) → List Segment → Spot
  | _, _, none, [] => .nowhere
  | _, _, some segment, [] => .past segment
  | index, walked, last, segment :: rest =>
    if segment.length ≤ 0 then find arc (index + 1) walked last rest
    else if arc ≤ walked + segment.length then
      .on index segment (clamp ((arc - walked) / segment.length) 0 1)
    else find arc (index + 1) (walked + segment.length) (some segment) rest

def Spot.placement (start : Vec2) : Spot → Placement
  | .on _ segment t => ⟨segment.start.lerp segment.stop t, segment.angle⟩
  | .past segment => ⟨segment.stop, segment.angle⟩
  | .nowhere => ⟨start, 0⟩

namespace PathLayout

/-- The layout along some points, before items and spacing are added. -/
def through (points : List Vec2) (closed : Bool) : PathLayout :=
  ⟨points, [], .even, none, 0, closed⟩

def goodItem (size : Vec2) : Bool :=
  size.isFinite && 0 ≤ size.x && 0 ≤ size.y

def goodLength (length : Float32) : Bool :=
  length.isFinite && 0 ≤ length

def problem? (p : PathLayout) : Option LayoutError :=
  match p.points.findIdx? (!·.isFinite) with
  | some index => some (.invalid (.pathPoint index) .notFinite)
  | none =>
    if p.length.any (!goodLength ·) then some (.invalid .pathLength .notFiniteOrNegative)
    else if !p.offset.isFinite then some (.invalid .pathOffset .notFinite)
    else
      match p.items.findIdx? (!goodItem ·) with
      | some item => some (.invalid (.pathItemSize item) .notFiniteOrNegative)
      | none => if p.points.isEmpty then some .emptyPath else none

def segments (p : PathLayout) : List Segment :=
  Segment.chain p.points p.closed

def totalLength (p : PathLayout) : Float32 :=
  total (p.segments.map Segment.length)

def usable (p : PathLayout) : Float32 :=
  match p.length with
  | some length => lesser length p.totalLength
  | none => p.totalLength

/-- Equal fractions: from zero to one on an open path, and short of one on a closed path, where
    one would be the first item's place again. A single item stays at the start. -/
def evenFraction (closed : Bool) (count index : Nat) : Float32 :=
  if count = 1 then 0
  else if closed then Float32.ofNat index / Float32.ofNat count
  else Float32.ofNat index / Float32.ofNat (count - 1)

/-- Centers of items laid end to end, and the end of the last of them. -/
def centers : (cursor : Float32) → List Vec2 → List Float32 × Float32
  | cursor, [] => ([], cursor)
  | cursor, size :: rest =>
    let (later, stop) := centers (cursor + size.x) rest
    ((cursor + size.x * 0.5) :: later, stop)

def evenFractions (p : PathLayout) : List Float32 :=
  (List.range p.items.length).map (evenFraction p.closed p.items.length)

/-- Items without width are spread evenly. -/
def weightedFractions (p : PathLayout) : List Float32 :=
  match centers 0 p.items with
  | ([], _) => []
  | (first :: rest, stop) =>
    let span := if p.closed then stop else (first :: rest).getLastD first - first
    if span ≤ 0 then p.evenFractions
    else (first :: rest).map fun center => (center - first) / span

def fractions (p : PathLayout) : List Float32 :=
  match p.spacing with
  | .even => p.evenFractions
  | .weighted => p.weightedFractions

/-- Distance along the path: wrapped around a closed path, held on an open one. -/
def arc? (p : PathLayout) (fraction : Float32) : Option Float32 :=
  let reached := fraction * p.usable + p.offset
  if p.closed then some (Binary32.wrap reached p.totalLength)
  else clamp? reached 0 p.totalLength

def spot? (p : PathLayout) (fraction : Float32) : Option Spot :=
  (p.arc? fraction).map fun arc => Spot.find arc 0 0 none p.segments

/-- What solving a path layout gives. The number of segments is known where items were placed
    along the path. -/
structure Solution where
  placements : List Placement
  segmentCount : Option Nat

/-- Placement of each item. All items of a path without length are at its start. -/
def solve (p : PathLayout) : Except LayoutFailure Solution :=
  match p.problem?, p.points with
  | some error, _ => .error (.refused error)
  | none, [] => .error (.refused .emptyPath)
  | none, start :: _ =>
    if p.items.isEmpty then .ok ⟨[], none⟩
    else if p.totalLength ≤ 0 then .ok ⟨p.items.map fun _ => ⟨start, 0⟩, none⟩
    else
      match p.fractions.mapM p.spot? with
      | some spots => .ok ⟨spots.map (Spot.placement start), some p.segments.length⟩
      | none => .error (.fault .clampBounds)

end PathLayout

end RetainedScene
