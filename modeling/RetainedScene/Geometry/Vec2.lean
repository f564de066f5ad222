import RetainedScene.Number.Circle

/-!
# Points and extents in the plane

Lengths are logical pixels. Every operation rounds each coordinate once, in the order in which
it is written here.
-/

set_option autoImplicit false

namespace RetainedScene

structure Vec2 where
  x : Float32
  y : Float32
deriving DecidableEq, Inhabited

namespace Vec2

def zero : Vec2 := ⟨0, 0⟩

instance : Add Vec2 := ⟨fun a b => ⟨a.x + b.x, a.y + b.y⟩⟩

instance : Sub Vec2 := ⟨fun a b => ⟨a.x - b.x, a.y - b.y⟩⟩

instance : Neg Vec2 := ⟨fun a => ⟨-a.x, -a.y⟩⟩

instance : HMul Vec2 Float32 Vec2 := ⟨fun a s => ⟨a.x * s, a.y * s⟩⟩

instance : HDiv Vec2 Float32 Vec2 := ⟨fun a s => ⟨a.x / s, a.y / s⟩⟩

/-- Coordinates compared as numbers: the two zeros are equal, and a NaN equals nothing. -/
instance : BEq Vec2 := ⟨fun a b => a.x == b.x && a.y == b.y⟩

def isFinite (a : Vec2) : Bool :=
  a.x.isFinite && a.y.isFinite

def dot (a b : Vec2) : Float32 :=
  a.x * b.x + a.y * b.y

def length (a : Vec2) : Float32 :=
  (a.dot a).sqrt

def distance (a b : Vec2) : Float32 :=
  (b - a).length

def lerp (a b : Vec2) (t : Float32) : Vec2 :=
  a + (b - a) * t

/-- Direction in radians, from the first axis towards the second. The zero vector has the
    angle zero, whatever the signs of its coordinates. -/
def angle (a : Vec2) : Float32 :=
  if a.x == 0 && a.y == 0 then 0 else Circle.angle a.y a.x

end Vec2

end RetainedScene
