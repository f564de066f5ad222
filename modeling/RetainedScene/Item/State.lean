import RetainedScene.Item.Primitive
import RetainedScene.Layout.Constraint
import RetainedScene.Layout.Path

/-!
# State of each kind of item
-/

set_option autoImplicit false

namespace RetainedScene

structure Rectangle where
  geometry : Rect := .zero
  color : Color := .transparent
  borderWidth : Float32 := 0
  borderColor : Color := .transparent
  radius : Float32 := 0
deriving DecidableEq

def Rectangle.primitive (r : Rectangle) : Primitive :=
  if 0 < r.borderWidth || 0 < r.radius then
    .borderRectangle r.color r.borderWidth r.borderColor r.radius
  else .rectangle r.color

structure Text where
  geometry : Rect := .zero
  text : String := ""
  color : Color := .black
  fontSize : Float32 := 14
deriving DecidableEq

namespace Text

def primitive (t : Text) : Primitive :=
  .text t.text t.color t.fontSize

/-- An estimate from the number of characters. The height is also the least one. -/
def preferredSize (t : Text) : Vec2 :=
  ⟨Float32.ofNat t.text.length * t.fontSize * 0.6, t.fontSize * 1.25⟩

def sizeHints (t : Text) : SizeHints :=
  { SizeHints.free with
    min := ⟨0, t.preferredSize.y⟩
    preferred := t.preferredSize
    stretch := .zero }

end Text

/-- An image named by its source. The natural size is what the host knows about it. -/
structure Image where
  geometry : Rect := .zero
  source : String := ""
  naturalSize : Vec2 := .zero
deriving DecidableEq

def Image.primitive (i : Image) : Primitive :=
  .image i.source

def Image.sizeHints (i : Image) : SizeHints :=
  { SizeHints.free with preferred := i.naturalSize }

/-- A stroked polyline whose points are relative to the origin of the item's geometry, so that
    moving the item moves the path. -/
structure PathItem where
  geometry : Rect := .zero
  points : List Vec2 := []
  closed : Bool := false
  stroke : Color := .black
  strokeWidth : Float32 := 1
deriving DecidableEq

namespace PathItem

def absolutePoints (p : PathItem) : List Vec2 :=
  p.points.map (· + p.geometry.origin)

def layout (p : PathItem) : PathLayout :=
  .through p.absolutePoints p.closed

def primitive (p : PathItem) : Primitive :=
  .path p.absolutePoints p.closed p.stroke p.strokeWidth

end PathItem

/-- An invisible region for input, which records whether it is pressed. -/
structure TouchArea where
  geometry : Rect := .zero
  pressed : Bool := false
deriving DecidableEq

end RetainedScene
