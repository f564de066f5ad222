import RetainedScene.Scene.Walk

/-!
# Surveys

A survey is a walk whose visitor writes down what it is shown and answers by rules. It may make
one change to the scene on the way. Where no rule applies it goes on, as long as it has patience.
-/

set_option autoImplicit false

namespace RetainedScene

/-- What tells items of one kind apart. -/
inductive Label
  | none
  | text (text : String)
  | flag (value : Bool)
deriving DecidableEq, Repr

/-- A text by its text, an image by its source, a rectangle by the bits of its radius, and a
    touch area by whether it is pressed. -/
def Item.label : Item → Label
  | .rectangle s => .text (Binary32.bitText s.radius)
  | .text s => .text s.text
  | .image s => .text s.source
  | .path _ => .none
  | .touchArea s => .flag s.pressed

structure Survey.Entry where
  index : Nat
  kind : Kind
  label : Label
deriving DecidableEq, Repr

/-- An action for the items that meet every condition. The position counts the items that were
    seen before. -/
structure Survey.Rule where
  position : Option Nat
  index : Option Nat
  kind : Option String
  label : Option Label
  action : Action

structure Survey where
  rules : List Survey.Rule
  /-- A change to make when so many items were seen before. -/
  change : Option (Nat × Edit)
  patience : Nat := 2000

namespace Survey

def Entry.ofSight (s : Sight) : Entry :=
  ⟨s.index, s.item.kind, s.item.label⟩

def Rule.applies (r : Rule) (position : Nat) (e : Entry) : Bool :=
  r.position.all (· == position) && r.index.all (· == e.index) && r.kind.all (· == e.kind.name)
    && r.label.all (· == e.label)

/-- The first rule that applies decides. -/
def action (s : Survey) (position : Nat) (e : Entry) : Action :=
  match s.rules.find? (·.applies position e) with
  | some rule => rule.action
  | none => if s.patience ≤ position then .abort else .descend

def edits (s : Survey) (position : Nat) : List Edit :=
  match s.change with
  | some (due, edit) => if due = position then [edit] else []
  | none => []

/-- Remembers the entries, the latest first. -/
def visitor (s : Survey) : Visitor (List Entry) := fun seen _ sight =>
  let entry := Entry.ofSight sight
  ⟨entry :: seen, s.edits seen.length, s.action seen.length entry⟩

/-- Number of nodes that the change brings in. -/
def added (s : Survey) (host : Color) : Nat :=
  match s.change with
  | some (_, .update _ feed) => Component.sizeOfInstances (Blueprint.makeInstances host feed)
  | _ => 0

/-- From this position on, the answer to an item depends on its entry alone. -/
def horizon (s : Survey) : Nat :=
  let due := s.change.toList.map (·.1) ++ s.rules.filterMap (·.position)
  (due.map (· + 1)).foldl Nat.max s.patience

/-- On the way down every item takes a position of its own, and a node that were met twice beyond
    the horizon would be met forever. A repeater lies inside the one before, and so is met once. -/
def depth (s : Survey) (scene : Scene) : Nat :=
  s.horizon + scene.root.size + s.added scene.host + 2

/-- What a survey comes back with. -/
structure Result where
  ending : Ending
  entries : List Entry
  scene : Scene

def Result.ofOutcome (o : Walk.Outcome (List Entry)) : Result :=
  ⟨o.ending, o.walk.memory.reverse, o.walk.scene⟩

def run (s : Survey) (scene : Scene) (place : Place) (start : Start) : Result :=
  .ofOutcome (scene.walk s.visitor (s.depth scene) place start [])

def runRepeater (s : Survey) (scene : Scene) (a : RepeaterAddress) : Result :=
  .ofOutcome (scene.walkRepeater s.visitor (s.depth scene) a [])

end Survey

end RetainedScene
