import RetainedScene.Scene.Walk

/-!
# Reading and moving what a component shows

Walks whose visitors never skip or stop: counting items, listing them, and moving them.
-/

set_option autoImplicit false

namespace RetainedScene

/-- Remembers what it was shown, the latest first. -/
def Visitor.recorder : Visitor (List Sight) := fun seen _ sight =>
  ⟨sight :: seen, [], .descend⟩

def Visitor.counter : Visitor Nat := fun count _ _ =>
  ⟨count + 1, [], .descend⟩

/-- Moves every item it is shown, and remembers the new geometries, the latest first. -/
def Visitor.mover (offset : Vec2) : Visitor (List Rect) := fun moved _ sight =>
  let geometry := sight.item.geometry.translated offset
  ⟨geometry :: moved, [.setGeometry sight.place sight.slot geometry], .descend⟩

/-- The memory of a walk that did not end in a fault. -/
def Walk.Outcome.memory? {μ : Type} (o : Walk.Outcome μ) : Except Fault μ :=
  match o.ending with
  | .fault fault => .error fault
  | .completed | .aborted => .ok o.walk.memory

namespace Scene

/-- Deep enough for every walk over trees without cycles. -/
def depth (s : Scene) : Nat :=
  s.root.size

def itemCount (s : Scene) (place : Place) : Except Fault Nat :=
  (s.walk .counter s.depth place .root 0).memory?

def sights (s : Scene) (place : Place) (start : Start) : Except Fault (List Sight) :=
  List.reverse <$> (s.walk .recorder s.depth place start []).memory?

def move (s : Scene) (place : Place) (offset : Vec2) : Walk.Outcome (List Rect) :=
  s.walk (.mover offset) s.depth place .root []

structure InstanceReport where
  position : Nat
  index : Nat
  itemCount : Nat
  /-- An instance that is in the scene has its host, since the scene owns both. -/
  hostAlive : Bool := true

def instanceReports (s : Scene) (a : RepeaterAddress) : Except Fault (List InstanceReport) :=
  match s.root.repeater? a with
  | none => .error .indexOutOfRange
  | some r =>
    (r.instances.mapIdx fun position c => (position, c.index)).mapM fun (position, index) =>
      (fun itemCount => { position, index, itemCount }) <$> s.itemCount (a.instancePlace position)

/-- Instances refer to the host without owning it, so that the scene is its only owner. -/
def hostOwners (_ : Scene) : Nat := 1

end Scene

end RetainedScene
