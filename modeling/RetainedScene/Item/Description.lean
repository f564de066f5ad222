import RetainedScene.Number.Decimal
import RetainedScene.Quoted
import RetainedScene.Item.Capability

/-!
# Descriptions for logs

A value is written as the name of its type and its fields between braces.
-/

set_option autoImplicit false

namespace RetainedScene

def record (name : String) (fields : List (String × String)) : String :=
  name ++ " \x7b " ++ ", ".intercalate (fields.map fun (field, value) => field ++ ": " ++ value)
    ++ " \x7d"

def Vec2.description (v : Vec2) : String :=
  record "Vec2" [("x", Decimal.text v.x), ("y", Decimal.text v.y)]

def Rect.description (r : Rect) : String :=
  record "Rect" [("origin", r.origin.description), ("size", r.size.description)]

def Item.description (i : Item) : String :=
  record "ItemRef" [("kind", Quoted.quote i.kind.name), ("geometry", i.geometry.description)]

/-- The entries are not written out. -/
def CapabilityTable.description (t : CapabilityTable) : String :=
  "ItemVTable \x7b name: " ++ Quoted.quote t.name ++ ", .. \x7d"

end RetainedScene
