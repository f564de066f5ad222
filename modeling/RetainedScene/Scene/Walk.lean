import RetainedScene.Scene.Basic

/-!
# Walks

A walk shows the items of a component to a visitor in pre-order. A dynamic node is replaced by
the walks of its instances, in order, and its repeater is in use until all of them are over.
The visitor keeps a memory, may edit the scene each time it is shown an item, and says how to
go on.
-/

set_option autoImplicit false

namespace RetainedScene

/-- An item as a walk shows it: the component that owns it, its node there, and where it is
    kept. -/
structure Sight where
  place : Place
  index : Nat
  slot : Nat
  item : Item

inductive Action
  | descend
  | skipChildren
  | abort
deriving DecidableEq, Repr

structure Reply (μ : Type) where
  memory : μ
  edits : List Edit
  action : Action

/-- A visitor answers from what it remembers, the scene as it is, and the item it is shown. -/
abbrev Visitor (μ : Type) := μ → Scene → Sight → Reply μ

inductive Ending
  | completed
  | aborted
  | fault (fault : Fault)
deriving DecidableEq, Repr

structure Walk (μ : Type) where
  scene : Scene
  memory : μ

structure Walk.Outcome (μ : Type) where
  ending : Ending
  walk : Walk μ

/-- Where a walk of a component starts: at its node 0, or below one of its item nodes. -/
inductive Start
  | root
  | childrenOf (index : Nat)
deriving DecidableEq, Repr

namespace Walk

variable {μ : Type}

def stop (w : Walk μ) (ending : Ending) : Outcome μ :=
  ⟨ending, w⟩

def component? (w : Walk μ) (place : Place) : Option Component :=
  w.scene.root.get? place

def node? (w : Walk μ) (place : Place) (index : Nat) : Option Node :=
  (w.component? place).bind fun c => c.tree[index]?

def mapWalks (w : Walk μ) (f : Nat → Nat) (a : RepeaterAddress) : Walk μ :=
  { w with
    scene := { w.scene with
      root := w.scene.root.modifyRepeaterAt a fun r => { r with walks := f r.walks } } }

/-- Keeps a repeater from changing. -/
def hold (w : Walk μ) (a : RepeaterAddress) : Walk μ :=
  w.mapWalks (· + 1) a

def release (w : Walk μ) (a : RepeaterAddress) : Walk μ :=
  w.mapWalks (· - 1) a

/-- Holds a repeater while `steps` runs, however that ends. -/
def holding (a : RepeaterAddress) (steps : Walk μ → Outcome μ) (w : Walk μ) : Outcome μ :=
  let outcome := steps (w.hold a)
  { outcome with walk := outcome.walk.release a }

/-- Takes `count` steps, numbered from `first`, until one does not complete. -/
def each (step : Nat → Walk μ → Outcome μ) : (count first : Nat) → Walk μ → Outcome μ
  | 0, _, w => w.stop .completed
  | count + 1, first, w =>
    let outcome := step first w
    match outcome.ending with
    | .completed => each step count (first + 1) outcome.walk
    | .aborted | .fault _ => outcome

/-- Shows an item, carries out the visitor's edits, and tells how to go on. -/
def present (visitor : Visitor μ) (w : Walk μ) (sight : Sight) :
    Walk μ × Except Fault Action :=
  let reply := visitor w.memory w.scene sight
  match w.scene.applyAll reply.edits with
  | (scene, none) => (⟨scene, reply.memory⟩, .ok reply.action)
  | (scene, some fault) => (⟨scene, reply.memory⟩, .error fault)

/-- Walks a range of children. Its end has to be a 32-bit number. -/
def children (enter : Nat → Walk μ → Outcome μ) (first count : UInt32) (w : Walk μ) :
    Outcome μ :=
  if UInt32.size ≤ first.toNat + count.toNat then w.stop (.fault .childRangeOverflow)
  else w.each enter count.toNat first.toNat

/-- Walks a component from its node 0. One without nodes is complete at once. -/
def fromRoot (enter : Place → Nat → Walk μ → Outcome μ) (place : Place) (w : Walk μ) :
    Outcome μ :=
  match w.component? place with
  | none => w.stop (.fault .indexOutOfRange)
  | some c => if c.tree.isEmpty then w.stop .completed else enter place 0 w

/-- Walks the instances that a repeater has when it is reached. -/
def instances (enter : Place → Nat → Walk μ → Outcome μ) (a : RepeaterAddress) (w : Walk μ) :
    Outcome μ :=
  match w.scene.root.repeater? a with
  | none => w.stop (.fault .indexOutOfRange)
  | some r =>
    w.holding a (each (fun position => fromRoot enter (a.instancePlace position)) r.length 0)

def offer (visitor : Visitor μ) (below : Walk μ → Outcome μ) (w : Walk μ) (sight : Sight) :
    Outcome μ :=
  match w.present visitor sight with
  | (w, .error fault) => w.stop (.fault fault)
  | (w, .ok .abort) => w.stop .aborted
  | (w, .ok .skipChildren) => w.stop .completed
  | (w, .ok .descend) => below w

def visit (visitor : Visitor μ) (enter : Place → Nat → Walk μ → Outcome μ) (place : Place)
    (index : Nat) (w : Walk μ) : Outcome μ :=
  match w.node? place index with
  | none => w.stop (.fault .indexOutOfRange)
  | some (.dynamic slot) => w.instances enter ⟨place, slot⟩
  | some (.item slot first count) =>
    match w.scene.root.item? place slot with
    | none => w.stop (.fault .indexOutOfRange)
    | some item => w.offer visitor (children (enter place) first count) ⟨place, index, slot, item⟩

section

variable {visitor : Visitor μ} {enter : Place → Nat → Walk μ → Outcome μ} {place : Place}
  {index : Nat} {w : Walk μ}

theorem visit_none (h : w.node? place index = none) :
    w.visit visitor enter place index = w.stop (.fault .indexOutOfRange) := by
  simp only [visit, h]

theorem visit_dynamic {slot : Nat} (h : w.node? place index = some (.dynamic slot)) :
    w.visit visitor enter place index = w.instances enter ⟨place, slot⟩ := by
  simp only [visit, h]

theorem visit_item {slot : Nat} {first count : UInt32} {item : Item}
    (h : w.node? place index = some (.item slot first count))
    (hi : w.scene.root.item? place slot = some item) :
    w.visit visitor enter place index =
      w.offer visitor (children (enter place) first count) ⟨place, index, slot, item⟩ := by
  simp only [visit, h, hi]

theorem visit_noItem {slot : Nat} {first count : UInt32}
    (h : w.node? place index = some (.item slot first count))
    (hi : w.scene.root.item? place slot = none) :
    w.visit visitor enter place index = w.stop (.fault .indexOutOfRange) := by
  simp only [visit, h, hi]

end

/-- Walks a node and everything below it, at most `depth` nodes deep. -/
def node (visitor : Visitor μ) : (depth : Nat) → Place → (index : Nat) → Walk μ → Outcome μ
  | 0, _, _, w => w.stop (.fault .tooDeep)
  | depth + 1, place, index, w =>
    w.visit visitor (fun place index w => node visitor depth place index w) place index

/-- Walks below an item node without showing the item itself. -/
def below (enter : Place → Nat → Walk μ → Outcome μ) (place : Place) (index : Nat)
    (w : Walk μ) : Outcome μ :=
  match w.node? place index with
  | none => w.stop (.fault .indexOutOfRange)
  | some (.dynamic _) => w.stop (.fault (.dynamicStart index))
  | some (.item _ first count) => w.children (enter place) first count

def start (enter : Place → Nat → Walk μ → Outcome μ) (place : Place) (w : Walk μ) :
    Start → Outcome μ
  | .root => w.fromRoot enter place
  | .childrenOf index => w.below enter place index

end Walk

namespace Scene

variable {μ : Type}

/-- Walks the component at a place by `enter`. The repeaters on the way to it are in use
    meanwhile. -/
def walkBy (s : Scene) (enter : Place → Nat → Walk μ → Walk.Outcome μ) (place : Place)
    (start : Start) (memory : μ) : Walk.Outcome μ :=
  (Place.owners place).foldr Walk.holding (fun w => w.start enter place start) ⟨s, memory⟩

def walk (s : Scene) (visitor : Visitor μ) (depth : Nat) (place : Place) (start : Start)
    (memory : μ) : Walk.Outcome μ :=
  s.walkBy (Walk.node visitor depth) place start memory

def walkRepeater (s : Scene) (visitor : Visitor μ) (depth : Nat) (a : RepeaterAddress)
    (memory : μ) : Walk.Outcome μ :=
  (Place.owners a.owner).foldr Walk.holding (Walk.instances (Walk.node visitor depth) a)
    ⟨s, memory⟩

end Scene

end RetainedScene
