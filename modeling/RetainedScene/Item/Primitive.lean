import RetainedScene.Geometry.Rect
import RetainedScene.Geometry.Color

/-!
# What an item wants drawn

A description only. Turning it into pixels is the business of a renderer.
-/

set_option autoImplicit false

namespace RetainedScene

inductive Primitive
  | nothing
  | rectangle (color : Color)
  | borderRectangle (color : Color) (borderWidth : Float32) (borderColor : Color)
      (radius : Float32)
  | text (text : String) (color : Color) (fontSize : Float32)
  | image (source : String)
  /-- A polyline in window coordinates. -/
  | path (points : List Vec2) (closed : Bool) (stroke : Color) (strokeWidth : Float32)
deriving DecidableEq

end RetainedScene
