import RetainedScene.Fault
import RetainedScene.Item.Basic

/-!
# Capability tables

A table offers the capabilities of one kind of item under a name, to callers that do not know
the kind. Calling an entry on an item of another kind is a fault, which names the kind of the
item.
-/

set_option autoImplicit false

namespace RetainedScene

structure CapabilityTable where
  name : String
  geometry : Item → Except Fault Rect
  setGeometry : Item → Rect → Except Fault Item
  primitive : Item → Except Fault Primitive
  sizeHints : Item → Except Fault SizeHints

namespace CapabilityTable

/-- The state of an item, if it is of the kind asked for. -/
def concrete (σ : Type) [ItemState σ] (item : Item) : Except Fault σ :=
  match ItemState.ofItem? item with
  | some state => .ok state
  | none => .error (.foreignItem item.kind)

def new (σ : Type) [ItemState σ] (name : String) : CapabilityTable where
  name := name
  geometry item := ItemState.geometry <$> concrete σ item
  setGeometry item rect :=
    (fun state => ItemState.toItem (ItemState.withGeometry state rect)) <$> concrete σ item
  primitive item := ItemState.primitive <$> concrete σ item
  sizeHints item := ItemState.sizeHints <$> concrete σ item

def ofKind (kind : Kind) (name : String) : CapabilityTable :=
  match kind with
  | .rectangle => new Rectangle name
  | .text => new Text name
  | .image => new Image name
  | .path => new PathItem name
  | .touchArea => new TouchArea name

end CapabilityTable

/-- The table that all items of a kind share. -/
def Kind.table (kind : Kind) : CapabilityTable :=
  .ofKind kind kind.name

def Item.table (item : Item) : CapabilityTable :=
  item.kind.table

def Item.holds (item : Item) (kind : Kind) : Bool :=
  match kind with
  | .rectangle => (ItemState.ofItem? item : Option Rectangle).isSome
  | .text => (ItemState.ofItem? item : Option Text).isSome
  | .image => (ItemState.ofItem? item : Option Image).isSome
  | .path => (ItemState.ofItem? item : Option PathItem).isSome
  | .touchArea => (ItemState.ofItem? item : Option TouchArea).isSome

end RetainedScene
