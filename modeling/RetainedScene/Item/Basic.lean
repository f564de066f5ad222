import RetainedScene.Item.Kind
import RetainedScene.Item.State

/-!
# Items

An item is the state of one of the kinds. Whatever the kind, it has a geometry, something to
draw, and size preferences.
-/

set_option autoImplicit false

namespace RetainedScene

inductive Item
  | rectangle (state : Rectangle)
  | text (state : Text)
  | image (state : Image)
  | path (state : PathItem)
  | touchArea (state : TouchArea)
deriving DecidableEq

/-- What a kind of item offers. A kind that does not say otherwise draws nothing and has free
    sizes. -/
class ItemState (σ : Type) where
  kind : Kind
  toItem : σ → Item
  ofItem? : Item → Option σ
  geometry : σ → Rect
  withGeometry : σ → Rect → σ
  primitive : σ → Primitive := fun _ => .nothing
  sizeHints : σ → SizeHints := fun _ => .free

instance : ItemState Rectangle where
  kind := .rectangle
  toItem := .rectangle
  ofItem?
    | .rectangle s => some s
    | _ => none
  geometry s := s.geometry
  withGeometry s geometry := { s with geometry }
  primitive := Rectangle.primitive

instance : ItemState Text where
  kind := .text
  toItem := .text
  ofItem?
    | .text s => some s
    | _ => none
  geometry s := s.geometry
  withGeometry s geometry := { s with geometry }
  primitive := Text.primitive
  sizeHints := Text.sizeHints

instance : ItemState Image where
  kind := .image
  toItem := .image
  ofItem?
    | .image s => some s
    | _ => none
  geometry s := s.geometry
  withGeometry s geometry := { s with geometry }
  primitive := Image.primitive
  sizeHints := Image.sizeHints

instance : ItemState PathItem where
  kind := .path
  toItem := .path
  ofItem?
    | .path s => some s
    | _ => none
  geometry s := s.geometry
  withGeometry s geometry := { s with geometry }
  primitive := PathItem.primitive

instance : ItemState TouchArea where
  kind := .touchArea
  toItem := .touchArea
  ofItem?
    | .touchArea s => some s
    | _ => none
  geometry s := s.geometry
  withGeometry s geometry := { s with geometry }

namespace Item

def kind : Item → Kind
  | .rectangle _ => .rectangle
  | .text _ => .text
  | .image _ => .image
  | .path _ => .path
  | .touchArea _ => .touchArea

/-- The item of a kind with nothing set. -/
def ofKind : Kind → Item
  | .rectangle => .rectangle {}
  | .text => .text {}
  | .image => .image {}
  | .path => .path {}
  | .touchArea => .touchArea {}

def geometry : Item → Rect
  | .rectangle s => s.geometry
  | .text s => s.geometry
  | .image s => s.geometry
  | .path s => s.geometry
  | .touchArea s => s.geometry

def withGeometry (geometry : Rect) : Item → Item
  | .rectangle s => .rectangle { s with geometry }
  | .text s => .text { s with geometry }
  | .image s => .image { s with geometry }
  | .path s => .path { s with geometry }
  | .touchArea s => .touchArea { s with geometry }

def primitive : Item → Primitive
  | .rectangle s => s.primitive
  | .text s => s.primitive
  | .image s => s.primitive
  | .path s => s.primitive
  | .touchArea _ => .nothing

def sizeHints : Item → SizeHints
  | .text s => s.sizeHints
  | .image s => s.sizeHints
  | .rectangle _ | .path _ | .touchArea _ => .free

def translated (i : Item) (offset : Vec2) : Item :=
  i.withGeometry (i.geometry.translated offset)

theorem geometry_withGeometry (i : Item) (geometry : Rect) :
    (i.withGeometry geometry).geometry = geometry := by
  cases i <;> rfl

theorem kind_withGeometry (i : Item) (geometry : Rect) :
    (i.withGeometry geometry).kind = i.kind := by
  cases i <;> rfl

end Item

end RetainedScene
