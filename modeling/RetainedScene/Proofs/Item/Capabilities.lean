import RetainedScene.Item.Capability

/-!
# Calling the entries of capability tables

A table serves the items of its kind and refuses all others, and it has no state of its own: what
it answers is what the item itself would answer, under whatever name the table was made. Placing an
item changes where it is and nothing else, and only a path draws something else then.
-/

set_option autoImplicit false

namespace RetainedScene

/-- What an entry of a table is called for. -/
inductive Request
  | geometry
  | setGeometry (rect : Rect)
  | primitive
  | sizeHints

inductive Answer
  | geometry (rect : Rect)
  | placed
  | primitive (primitive : Primitive)
  | sizeHints (hints : SizeHints)

/-- The item as a call leaves it, and what the call comes back with. -/
def CapabilityTable.call (t : CapabilityTable) (item : Item) : Request → Item × Except Fault Answer
  | .geometry => (item, .geometry <$> t.geometry item)
  | .setGeometry rect =>
    match t.setGeometry item rect with
    | .ok placed => (placed, .ok .placed)
    | .error fault => (item, .error fault)
  | .primitive => (item, .primitive <$> t.primitive item)
  | .sizeHints => (item, .sizeHints <$> t.sizeHints item)

/-- What is stored of an item beside its geometry. -/
inductive Item.Content
  | rectangle (color : Color) (borderWidth : Float32) (borderColor : Color) (radius : Float32)
  | text (text : String) (color : Color) (fontSize : Float32)
  | image (source : String) (naturalSize : Vec2)
  | path (points : List Vec2) (closed : Bool) (stroke : Color) (strokeWidth : Float32)
  | touchArea (pressed : Bool)

namespace Item

def content : Item → Content
  | .rectangle s => .rectangle s.color s.borderWidth s.borderColor s.radius
  | .text s => .text s.text s.color s.fontSize
  | .image s => .image s.source s.naturalSize
  | .path s => .path s.points s.closed s.stroke s.strokeWidth
  | .touchArea s => .touchArea s.pressed

theorem content_withGeometry (item : Item) (rect : Rect) :
    (item.withGeometry rect).content = item.content := by
  cases item <;> rfl

theorem sizeHints_withGeometry (item : Item) (rect : Rect) :
    (item.withGeometry rect).sizeHints = item.sizeHints := by
  cases item <;> rfl

theorem primitive_withGeometry {item : Item} (h : item.kind ≠ .path) (rect : Rect) :
    (item.withGeometry rect).primitive = item.primitive := by
  cases item with
  | path state => exact absurd rfl h
  | _ => rfl

/-- What an item does when it is asked itself. -/
def serve (item : Item) : Request → Item × Answer
  | .geometry => (item, .geometry item.geometry)
  | .setGeometry rect => (item.withGeometry rect, .placed)
  | .primitive => (item, .primitive item.primitive)
  | .sizeHints => (item, .sizeHints item.sizeHints)

end Item

/-- The states of a kind are those of the items of that kind, and behave like these items. -/
class LawfulItemState (σ : Type) [ItemState σ] : Prop where
  own (item : Item) : item.kind = ItemState.kind σ → ∃ state : σ,
    ItemState.ofItem? item = some state ∧ ItemState.geometry state = item.geometry ∧
      (∀ rect, ItemState.toItem (ItemState.withGeometry state rect) = item.withGeometry rect) ∧
        ItemState.primitive state = item.primitive ∧ ItemState.sizeHints state = item.sizeHints
  foreign (item : Item) : item.kind ≠ ItemState.kind σ → (ItemState.ofItem? item : Option σ) = none

instance : LawfulItemState Rectangle where
  own item h := by
    cases item <;> cases h
    exact ⟨_, rfl, rfl, fun _ => rfl, rfl, rfl⟩
  foreign item h := by
    cases item <;> first | rfl | exact absurd rfl h

instance : LawfulItemState Text where
  own item h := by
    cases item <;> cases h
    exact ⟨_, rfl, rfl, fun _ => rfl, rfl, rfl⟩
  foreign item h := by
    cases item <;> first | rfl | exact absurd rfl h

instance : LawfulItemState Image where
  own item h := by
    cases item <;> cases h
    exact ⟨_, rfl, rfl, fun _ => rfl, rfl, rfl⟩
  foreign item h := by
    cases item <;> first | rfl | exact absurd rfl h

instance : LawfulItemState PathItem where
  own item h := by
    cases item <;> cases h
    exact ⟨_, rfl, rfl, fun _ => rfl, rfl, rfl⟩
  foreign item h := by
    cases item <;> first | rfl | exact absurd rfl h

instance : LawfulItemState TouchArea where
  own item h := by
    cases item <;> cases h
    exact ⟨_, rfl, rfl, fun _ => rfl, rfl, rfl⟩
  foreign item h := by
    cases item <;> first | rfl | exact absurd rfl h

namespace CapabilityTable

section

variable {σ : Type} [ItemState σ] [LawfulItemState σ] {item : Item}

theorem call_new (name : String) (h : item.kind = ItemState.kind σ) (request : Request) :
    (new σ name).call item request =
      ((item.serve request).1, .ok (item.serve request).2) := by
  obtain ⟨state, hstate, hgeometry, hplaced, hprimitive, hhints⟩ := LawfulItemState.own item h
  have hconcrete : concrete σ item = .ok state := by
    rw [concrete, hstate]
  cases request with
  | geometry =>
    simp only [call, new, hconcrete, Item.serve, ← hgeometry]
    rfl
  | setGeometry rect =>
    simp only [Item.serve, ← hplaced]
    simp only [call, new, hconcrete]
    rfl
  | primitive =>
    simp only [call, new, hconcrete, Item.serve, ← hprimitive]
    rfl
  | sizeHints =>
    simp only [call, new, hconcrete, Item.serve, ← hhints]
    rfl

theorem call_new_foreign (name : String) (h : item.kind ≠ ItemState.kind σ) (request : Request) :
    (new σ name).call item request = (item, .error (.foreignItem item.kind)) := by
  have hconcrete : concrete σ item = .error (.foreignItem item.kind) := by
    rw [concrete, LawfulItemState.foreign item h]
  cases request <;> simp only [call, new, hconcrete] <;> rfl

end

/-- The table of a kind is one of those that are made from lawful states. -/
theorem ofKind_cases {P : Kind → CapabilityTable → Prop} (name : String)
    (h : ∀ (σ : Type) [ItemState σ] [LawfulItemState σ], P (ItemState.kind σ) (new σ name))
    (kind : Kind) : P kind (ofKind kind name) := by
  cases kind with
  | rectangle => exact h Rectangle
  | text => exact h Text
  | image => exact h Image
  | path => exact h PathItem
  | touchArea => exact h TouchArea

theorem call_own (item : Item) (name : String) (request : Request) :
    (ofKind item.kind name).call item request =
      ((item.serve request).1, .ok (item.serve request).2) :=
  ofKind_cases (P := fun kind t => item.kind = kind → t.call item request = _) name
    (fun _ _ _ hkind => call_new name hkind request) item.kind rfl

theorem call_foreign {item : Item} {kind : Kind} (h : kind ≠ item.kind) (name : String)
    (request : Request) :
    (ofKind kind name).call item request = (item, .error (.foreignItem item.kind)) :=
  ofKind_cases (P := fun kind t => item.kind ≠ kind → t.call item request = _) name
    (fun _ _ _ hkind => call_new_foreign name hkind request) kind h.symm

end CapabilityTable

namespace Item

/-- How the tables of all kinds treat an item, its own table first. -/
structure Served (item : Item) : Prop where
  dispatch (request : Request) : item.table.call item request =
    ((item.serve request).1, .ok (item.serve request).2)
  own (name : String) (request : Request) :
    (CapabilityTable.ofKind item.kind name).call item request = item.table.call item request
  foreign (kind : Kind) (name : String) (request : Request) : kind ≠ item.kind →
    (CapabilityTable.ofKind kind name).call item request = (item, .error (.foreignItem item.kind))
  named : (Fault.foreignItem item.kind).message =
    "`" ++ item.kind.name ++ "` capability table used on a foreign item"

/-- What becomes of an item when it is placed through its own table. -/
structure Placed (item : Item) (rect : Rect) (placed : Item) : Prop where
  call : item.table.call item (.setGeometry rect) = (placed, .ok .placed)
  geometry : placed.table.call placed .geometry = (placed, .ok (.geometry rect))
  content : placed.content = item.content
  sizeHints : (placed.table.call placed .sizeHints).2 = (item.table.call item .sizeHints).2
  primitive : item.kind ≠ .path →
    (placed.table.call placed .primitive).2 = (item.table.call item .primitive).2
  path (p : PathItem) : item = .path p → ∃ q : PathItem, placed = .path q ∧
    (placed.table.call placed .primitive).2 = .ok (.primitive
      (.path (p.points.map (· + rect.origin)) p.closed p.stroke p.strokeWidth)) ∧
    q.layout = .through (p.points.map (· + rect.origin)) p.closed

theorem served (item : Item) : item.Served where
  dispatch := CapabilityTable.call_own item item.kind.name
  own name request :=
    (CapabilityTable.call_own item name request).trans
      (CapabilityTable.call_own item item.kind.name request).symm
  foreign _ name request h := CapabilityTable.call_foreign h name request
  named := by cases item <;> rfl

theorem placed_withGeometry (item : Item) (rect : Rect) :
    item.Placed rect (item.withGeometry rect) where
  call := item.served.dispatch (.setGeometry rect)
  geometry := by
    rw [(item.withGeometry rect).served.dispatch, serve, geometry_withGeometry]
  content := item.content_withGeometry rect
  sizeHints := by
    rw [(item.withGeometry rect).served.dispatch, item.served.dispatch, serve, serve,
      sizeHints_withGeometry]
  primitive h := by
    rw [(item.withGeometry rect).served.dispatch, item.served.dispatch, serve, serve,
      primitive_withGeometry h]
  path p h := by
    subst h
    refine ⟨{ p with geometry := rect }, rfl, ?_, rfl⟩
    rw [served _ |>.dispatch]
    rfl

theorem served_and_placed (item : Item) :
    item.Served ∧ ∀ rect, ∃ placed, item.Placed rect placed :=
  ⟨item.served, fun rect => ⟨item.withGeometry rect, item.placed_withGeometry rect⟩⟩

end Item

end RetainedScene
