import RetainedScene.Number.Scalar
import RetainedScene.Number.Binary32
import RetainedScene.Geometry.Vec2

/-!
# What a size may be

A constraint bounds one size on one axis, says what it should be, and which share of leftover
space it takes.
-/

set_option autoImplicit false

namespace RetainedScene

inductive Axis
  | horizontal
  | vertical
deriving DecidableEq, Repr

def Axis.name : Axis → String
  | .horizontal => "horizontal"
  | .vertical => "vertical"

def Vec2.along (v : Vec2) : Axis → Float32
  | .horizontal => v.x
  | .vertical => v.y

structure SizeHints where
  min : Vec2
  max : Vec2
  preferred : Vec2
  stretch : Vec2
deriving DecidableEq, Inhabited

/-- No bounds, no size of its own, and an equal share of leftover space. -/
def SizeHints.free : SizeHints where
  min := .zero
  max := ⟨Binary32.infinity, Binary32.infinity⟩
  preferred := .zero
  stretch := ⟨1, 1⟩

/-- A size is preferred, and stays between `min` and `max`. With `stretch` zero it takes no
    share of leftover space. -/
structure Constraint (α : Type) where
  min : α
  max : α
  preferred : α
  stretch : α
deriving DecidableEq, Inhabited

namespace Constraint

def free : Constraint Float32 := ⟨0, Binary32.infinity, 0, 1⟩

def preferring (size : Float32) : Constraint Float32 :=
  { free with preferred := size }

def fixed (size : Float32) : Constraint Float32 := ⟨size, size, size, 0⟩

def ofHints (info : SizeHints) (axis : Axis) : Constraint Float32 :=
  ⟨info.min.along axis, info.max.along axis, info.preferred.along axis, info.stretch.along axis⟩

/-- The preferred size brought between the bounds. -/
def base? {α : Type} [Scalar α] (c : Constraint α) : Option α :=
  Scalar.clamp? c.preferred c.min c.max

end Constraint

end RetainedScene
