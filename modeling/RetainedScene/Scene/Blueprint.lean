import RetainedScene.Scene.Component

/-!
# Blueprints

A blueprint is what a component is made from. Instances are made under a host, from which
texts without a color of their own take its color of that moment.
-/

set_option autoImplicit false

namespace RetainedScene

structure ItemTemplate where
  item : Item
  /-- Takes the color of the host. -/
  inheritsColor : Bool
deriving DecidableEq

def ItemTemplate.make (host : Color) (t : ItemTemplate) : Item :=
  match t.item with
  | .text s => if t.inheritsColor then .text { s with color := host } else .text s
  | item => item

/-- What a repeater is fed with: a count of dots, or the components to make. -/
inductive Feed (β : Type)
  | dots (count : Nat)
  | components (blueprints : List β)

structure Blueprint where
  items : List ItemTemplate
  tree : List Node
  feeds : List (Feed Blueprint)

/-- A dot is one rectangle, which shows its index as its radius. -/
def Component.dot (host : Color) (index : Nat) : Component where
  index := index
  items := [.rectangle { color := host, radius := Float32.ofNat index }]
  tree := [.item 0 0 0]
  repeaters := []

namespace Blueprint

mutual

/-- The instance with a given index. Its repeaters are filled from the feeds at once. -/
def make (host : Color) (index : Nat) : Blueprint → Component
  | ⟨items, tree, feeds⟩ => ⟨index, items.map (·.make host), tree, makeRepeaters host feeds⟩

def makeRepeaters (host : Color) : List (Feed Blueprint) → List (Repeater Component)
  | [] => []
  | feed :: rest => { instances := makeInstances host feed } :: makeRepeaters host rest

def makeInstances (host : Color) : Feed Blueprint → List Component
  | .dots count => (Model.ofCount count).toList.mapIdx fun index _ => .dot host index
  | .components blueprints => makeEach host 0 blueprints

def makeEach (host : Color) : (index : Nat) → List Blueprint → List Component
  | _, [] => []
  | index, b :: rest => make host index b :: makeEach host (index + 1) rest

end

theorem makeEach_eq_mapIdx (host : Color) (first : Nat) (blueprints : List Blueprint) :
    makeEach host first blueprints =
      blueprints.mapIdx fun position b => make host (first + position) b := by
  induction blueprints generalizing first with
  | nil => rfl
  | cons b rest ih =>
    simp [makeEach, ih, List.mapIdx_cons, Nat.add_assoc, Nat.add_comm 1]

/-- The instances of a model of blueprints: each is made from its element and its index. -/
theorem makeInstances_components (host : Color) (blueprints : List Blueprint) :
    makeInstances host (.components blueprints) = blueprints.mapIdx (make host) := by
  simp [makeInstances, makeEach_eq_mapIdx]

/-- The root component has no host, so that its texts keep the color they come with. -/
def makeRoot (host : Color) (b : Blueprint) : Component :=
  ⟨0, b.items.map ItemTemplate.item, b.tree, makeRepeaters host b.feeds⟩

end Blueprint

end RetainedScene
