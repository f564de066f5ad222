import RetainedScene.Geometry.Vec2

/-!
# Rectangles with sides along the axes
-/

set_option autoImplicit false

namespace RetainedScene

structure Rect where
  origin : Vec2
  size : Vec2
deriving DecidableEq, Inhabited

namespace Rect

def zero : Rect := ⟨.zero, .zero⟩

instance : BEq Rect := ⟨fun a b => a.origin == b.origin && a.size == b.size⟩

def around (center size : Vec2) : Rect :=
  ⟨center - size * (0.5 : Float32), size⟩

def corner (r : Rect) : Vec2 :=
  r.origin + r.size

def center (r : Rect) : Vec2 :=
  r.origin + r.size * (0.5 : Float32)

def isEmpty (r : Rect) : Bool :=
  r.size.x ≤ 0 || r.size.y ≤ 0

def isFinite (r : Rect) : Bool :=
  r.origin.isFinite && r.size.isFinite

/-- The sides through the origin belong to the rectangle, the other two do not. -/
def contains (r : Rect) (p : Vec2) : Bool :=
  r.origin.x ≤ p.x && r.origin.y ≤ p.y && p.x < r.corner.x && p.y < r.corner.y

def translated (r : Rect) (offset : Vec2) : Rect :=
  ⟨r.origin + offset, r.size⟩

end Rect

end RetainedScene
