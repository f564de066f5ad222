import RetainedScene.Fault
import RetainedScene.Item.Basic
import RetainedScene.Model

/-!
# Components

A component owns items and describes their tree by a flat array of nodes. The children of an
item node are a contiguous range of the same array, and node 0 is the root. A dynamic node
stands for the instances of one of the component's repeaters, which are components themselves.
-/

set_option autoImplicit false

namespace RetainedScene

inductive Node
  | item (slot : Nat) (first count : UInt32)
  | dynamic (repeater : Nat)
deriving DecidableEq

/-- The instances that were generated from a model, and the number of walks that are passing
    through them at the moment. -/
structure Repeater (κ : Type) where
  instances : List κ := []
  walks : Nat := 0

namespace Repeater

variable {κ δ : Type}

/-- Replaces all instances. Those that a walk is passing through must stay. -/
def fill (r : Repeater κ) (instances : List κ) : Except Fault (Repeater κ) :=
  if r.walks = 0 then .ok { r with instances } else .error .repeaterInUse

/-- Instances made afresh from a model, one for each element. -/
def update (r : Repeater κ) (make : Nat → δ → κ) (model : Model δ) :
    Except Fault (Repeater κ) :=
  r.fill (model.toList.mapIdx make)

def length (r : Repeater κ) : Nat :=
  r.instances.length

def isEmpty (r : Repeater κ) : Bool :=
  r.instances.isEmpty

end Repeater

structure Component where
  /-- Position in the model that the component was made from. -/
  index : Nat
  items : List Item
  tree : List Node
  repeaters : List (Repeater Component)

/-- The way from a component to an instance of one of its repeaters. -/
structure Branch where
  repeater : Nat
  position : Nat
deriving DecidableEq, Repr

/-- The way from the root component to a component. -/
abbrev Place := List Branch

/-- A repeater, by the component that owns it and its number there. -/
structure RepeaterAddress where
  owner : Place
  slot : Nat
deriving DecidableEq, Repr

def RepeaterAddress.instancePlace (a : RepeaterAddress) (position : Nat) : Place :=
  a.owner ++ [⟨a.slot, position⟩]

/-- The repeaters that a way leads through from a place on, the outermost first. -/
def Place.ownersFrom (outer : Place) : Place → List RepeaterAddress
  | [] => []
  | branch :: rest => ⟨outer, branch.repeater⟩ :: ownersFrom (outer ++ [branch]) rest

def Place.owners (place : Place) : List RepeaterAddress :=
  ownersFrom [] place

theorem Place.ownersFrom_append (outer a b : Place) :
    ownersFrom outer (a ++ b) = ownersFrom outer a ++ ownersFrom (outer ++ a) b := by
  induction a generalizing outer with
  | nil => simp [ownersFrom]
  | cons branch rest ih => simp [ownersFrom, ih]

/-- An instance lies inside its repeater and inside all that its owner lies in. -/
theorem Place.owners_instancePlace (a : RepeaterAddress) (position : Nat) :
    Place.owners (a.instancePlace position) = Place.owners a.owner ++ [a] := by
  simp [owners, RepeaterAddress.instancePlace, ownersFrom_append, ownersFrom]

namespace Component

def instance? (c : Component) (b : Branch) : Option Component :=
  match c.repeaters[b.repeater]? with
  | some r => r.instances[b.position]?
  | none => none

def get? : Component → Place → Option Component
  | c, [] => some c
  | c, branch :: rest =>
    match c.instance? branch with
    | some instance_ => get? instance_ rest
    | none => none

def modifyRepeater (c : Component) (slot : Nat)
    (f : Repeater Component → Repeater Component) : Component :=
  { c with repeaters := c.repeaters.modify slot f }

/-- Changes the component at a place, and nothing where there is none. -/
def modify (f : Component → Component) : Place → Component → Component
  | [], c => f c
  | branch :: rest, c =>
    c.modifyRepeater branch.repeater fun r =>
      { r with instances := r.instances.modify branch.position (modify f rest) }

def repeater? (c : Component) (a : RepeaterAddress) : Option (Repeater Component) :=
  match c.get? a.owner with
  | some owner => owner.repeaters[a.slot]?
  | none => none

def modifyRepeaterAt (c : Component) (a : RepeaterAddress)
    (f : Repeater Component → Repeater Component) : Component :=
  c.modify (fun owner => owner.modifyRepeater a.slot f) a.owner

def item? (c : Component) (place : Place) (slot : Nat) : Option Item :=
  match c.get? place with
  | some owner => owner.items[slot]?
  | none => none

def modifyItem (c : Component) (place : Place) (slot : Nat) (f : Item → Item) : Component :=
  c.modify (fun owner => { owner with items := owner.items.modify slot f }) place

mutual

/-- Number of nodes of a component and everything generated in it, with one more for each
    component. No walk over a tree without cycles goes deeper. -/
def size : Component → Nat
  | ⟨_, _, tree, repeaters⟩ => tree.length + 1 + sizeOfRepeaters repeaters

def sizeOfRepeaters : List (Repeater Component) → Nat
  | [] => 0
  | ⟨instances, _⟩ :: rest => sizeOfInstances instances + sizeOfRepeaters rest

def sizeOfInstances : List Component → Nat
  | [] => 0
  | c :: rest => c.size + sizeOfInstances rest

end

end Component

end RetainedScene
