import RetainedScene.Geometry.Vec2
import RetainedScene.Geometry.Color

/-!
# Window settings

What a root component asks of the window that shows it, and what the window system is asked for
in turn.
-/

set_option autoImplicit false

namespace RetainedScene

def defaultTitle : String := "esagil"

structure WindowSettings where
  title : String := defaultTitle
  size : Vec2 := ⟨800, 600⟩
  minSize : Option Vec2 := none
  resizable : Bool := true
  background : Color := .white

instance : BEq WindowSettings :=
  ⟨fun a b => a.title == b.title && a.size == b.size && a.minSize == b.minSize
    && a.resizable == b.resizable && a.background == b.background⟩

/-- A size in the precision of the window system. -/
structure LogicalSize where
  width : Float
  height : Float

def LogicalSize.ofVec2 (v : Vec2) : LogicalSize :=
  ⟨Binary32.widen v.x, Binary32.widen v.y⟩

structure WindowRequest where
  title : String := defaultTitle
  size : LogicalSize := ⟨800, 600⟩
  minSize : Option LogicalSize := none
  resizable : Bool := true

def WindowSettings.config (p : WindowSettings) : WindowRequest :=
  ⟨p.title, .ofVec2 p.size, p.minSize.map .ofVec2, p.resizable⟩

end RetainedScene
