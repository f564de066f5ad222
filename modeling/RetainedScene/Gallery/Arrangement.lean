import RetainedScene.Gallery.Basic
import RetainedScene.Layout.Grid
import RetainedScene.Number.Circle

/-!
# Laying out the gallery

The title is at the top, the tiles take two thirds of the width below it, and the ring takes
the rest. Tiles are packed row by row; dots are spread along the ring.
-/

set_option autoImplicit false

namespace RetainedScene.Gallery

open Scalar

def titleHeight : Float32 := 56

def margin : Float32 := 16

def gridColumns : Nat := 3

/-- Row and column of the next tile. -/
structure Cursor where
  row : Nat
  column : Nat

def tileColumns (wide : Bool) : Nat :=
  if wide then 2 else 1

/-- Goes to a new row where the tile does not fit behind the one before it. -/
def Cursor.fit (c : Cursor) (span : Nat) : Cursor :=
  if gridColumns < c.column + span then ⟨c.row + 1, 0⟩ else c

def Cursor.past (c : Cursor) (span : Nat) : Cursor :=
  ⟨c.row, c.column + span⟩

def tileHeight : Constraint Float32 :=
  { Constraint.preferring 64 with max := 120 }

def Cursor.cell (c : Cursor) (span : Nat) : Cell :=
  ((Cell.single (UInt64.ofNat c.row) (UInt64.ofNat c.column)).spanning 1
    (UInt64.ofNat span)).withVertical tileHeight

def pack : Cursor → List Bool → List Cell
  | _, [] => []
  | cursor, wide :: rest =>
    let span := tileColumns wide
    let fitted := cursor.fit span
    fitted.cell span :: pack (fitted.past span) rest

/-- The caption lies half a margin inside the frame. -/
def placeTile (t : Tile) (rect : Rect) : Tile :=
  let inset : Vec2 := ⟨margin * 0.5, margin * 0.5⟩
  let caption := Rect.translated ⟨rect.origin, rect.size - inset * (2 : Float32)⟩ inset
  { t with
    frame := { t.frame with geometry := rect }
    caption := { t.caption with geometry := caption } }

/-- The two lists side by side; what has no partner stays as it is. -/
def placeEach {α β : Type} (place : α → β → α) : List α → List β → List α
  | [], _ => []
  | rest, [] => rest
  | a :: rest, b :: more => place a b :: placeEach place rest more

def tileGrid (g : Gallery) (area : Rect) : Grid where
  cells := pack ⟨0, 0⟩ (g.tiles.instances.map Tile.wide)
  size := area.size
  spacing := margin * 0.5
  origin := area.origin
  columns := some (UInt64.ofNat gridColumns)
  rows := none

def arrangeTiles (g : Gallery) (area : Rect) : Except LayoutFailure Gallery := do
  let solution ← (g.tileGrid area).solve
  let instances := placeEach placeTile g.tiles.instances solution.rects
  return { g with tiles := { g.tiles with instances } }

/-- The angles of points that are spread around a circle. -/
def turn (count index : Nat) : Float32 :=
  Float32.ofNat index / Float32.ofNat count * Circle.fullTurn

def circlePoints (f : Circle.Functions) (count : Nat) (center : Vec2) (radius : Float32) :
    List Vec2 :=
  (List.range count).map fun index =>
    center + (⟨f.cosine (turn count index), f.sine (turn count index)⟩ : Vec2) * radius

def ringPoints : Nat := 16

def ringRadius (size : Vec2) : Float32 :=
  greater (lesser size.x size.y * 0.5 - dotSize) 0

def placeRing (f : Circle.Functions) (g : Gallery) (area : Rect) : Gallery :=
  let points := circlePoints f ringPoints (area.size * (0.5 : Float32)) (ringRadius area.size)
  { g with ring := { g.ring with geometry := area, points } }

def dotExtent : Vec2 := ⟨dotSize, dotSize⟩

def dotPath (g : Gallery) : PathLayout :=
  { g.ring.layout with items := g.dots.instances.map fun _ => dotExtent }

def placeDot (dot : Rectangle) (p : Placement) : Rectangle :=
  { dot with geometry := p.rect dotExtent }

def arrangeDots (g : Gallery) : Except LayoutFailure Gallery := do
  let solution ← g.dotPath.solve
  let instances := placeEach placeDot g.dots.instances solution.placements
  return { g with dots := { g.dots with instances } }

structure Areas where
  grid : Rect
  ring : Rect

/-- Below the title and a margin. -/
def bodyTop : Float32 := titleHeight + margin

def bodyHeight (height : Float32) : Float32 :=
  greater (height - bodyTop - margin) 0

/-- What the margins beside the two areas and between them leave of the width. -/
def bodyWidth (width : Float32) : Float32 :=
  width - 3 * margin

def gridWidth (width : Float32) : Float32 :=
  greater (bodyWidth width * 2 / 3) 0

def ringWidth (width : Float32) : Float32 :=
  greater (bodyWidth width - gridWidth width) 0

def areas (size : Vec2) : Areas where
  grid := ⟨⟨margin, bodyTop⟩, ⟨gridWidth size.x, bodyHeight size.y⟩⟩
  ring := ⟨⟨2 * margin + gridWidth size.x, bodyTop⟩, ⟨ringWidth size.x, bodyHeight size.y⟩⟩

def placeHeader (g : Gallery) (size : Vec2) : Gallery :=
  let title : Rect := ⟨⟨margin, margin⟩, ⟨size.x - 2 * margin, titleHeight - margin⟩⟩
  { g with
    background := { g.background with geometry := ⟨.zero, size⟩ }
    title := { g.title with geometry := title } }

structure LaidOut where
  gallery : Gallery
  failure : Option LayoutFailure

/-- Lays the gallery out for a window size. What was placed before a failure stays placed. -/
def arrangeBy (f : Circle.Functions) (g : Gallery) (size : Vec2) : LaidOut :=
  let withHeader := g.placeHeader size
  match withHeader.arrangeTiles (areas size).grid with
  | .error failure => ⟨withHeader, some failure⟩
  | .ok withTiles =>
    let withRing := withTiles.placeRing f (areas size).ring
    match withRing.arrangeDots with
    | .error failure => ⟨withRing, some failure⟩
    | .ok withDots => ⟨withDots, none⟩

def arrange (g : Gallery) (size : Vec2) : LaidOut :=
  g.arrangeBy Circle.functions size

end RetainedScene.Gallery
