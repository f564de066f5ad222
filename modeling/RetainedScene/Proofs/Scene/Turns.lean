import RetainedScene.Proofs.Scene.Invariant

/-!
# Turns of a visitor

A walk starts at a component or at a repeater. Recorded, it writes down each turn of its visitor:
the scene at that moment, the item that is shown, and the edits that the visitor answers with.
-/

set_option autoImplicit false

namespace RetainedScene

variable {μ : Type}

structure Turn where
  scene : Scene
  sight : Sight
  edits : List Edit

/-- The fault that keeps an edit of the turn from taking effect. -/
def Turn.fault? (turn : Turn) : Option Fault :=
  (turn.scene.applyAll turn.edits).2

/-- A memory and the turns so far, the latest first. -/
structure Recorded (μ : Type) where
  memory : μ
  turns : List Turn

def Visitor.recorded (visitor : Visitor μ) : Visitor (Recorded μ) := fun recorded scene sight =>
  let reply := visitor recorded.memory scene sight
  ⟨⟨reply.memory, ⟨scene, sight, reply.edits⟩ :: recorded.turns⟩, reply.edits, reply.action⟩

theorem Visitor.recorded_lifts (visitor : Visitor μ) :
    visitor.recorded.Lifts Recorded.memory visitor :=
  fun _ _ _ => rfl

inductive Source
  | component (place : Place) (start : Start)
  | repeater (a : RepeaterAddress)

def Source.walk (enter : Place → Nat → Walk μ → Walk.Outcome μ) :
    Source → Walk μ → Walk.Outcome μ
  | .component place start =>
    (Place.owners place).foldr Walk.holding fun w => w.start enter place start
  | .repeater a => (Place.owners a.owner).foldr Walk.holding (Walk.instances enter a)

namespace Scene

def walkFrom (s : Scene) (visitor : Visitor μ) (depth : Nat) (source : Source) (memory : μ) :
    Walk.Outcome μ :=
  source.walk (Walk.node visitor depth) ⟨s, memory⟩

theorem walkFrom_component (s : Scene) (visitor : Visitor μ) (depth : Nat) (place : Place)
    (start : Start) (memory : μ) :
    s.walkFrom visitor depth (.component place start) memory =
      s.walk visitor depth place start memory :=
  rfl

theorem walkFrom_repeater (s : Scene) (visitor : Visitor μ) (depth : Nat) (a : RepeaterAddress)
    (memory : μ) :
    s.walkFrom visitor depth (.repeater a) memory = s.walkRepeater visitor depth a memory :=
  rfl

def record (s : Scene) (visitor : Visitor μ) (depth : Nat) (source : Source) (memory : μ) :
    Walk.Outcome (Recorded μ) :=
  s.walkFrom visitor.recorded depth source ⟨memory, []⟩

def turns (s : Scene) (visitor : Visitor μ) (depth : Nat) (source : Source) (memory : μ) :
    List Turn :=
  (s.record visitor depth source memory).walk.memory.turns.reverse

/-- Writing down the turns changes nothing else about a walk. -/
theorem record_unrecorded (s : Scene) (visitor : Visitor μ) (depth : Nat) (source : Source)
    (memory : μ) : (s.record visitor depth source memory).withMemory Recorded.memory =
      s.walkFrom visitor depth source memory := by
  have nodes := fun place index =>
    Walk.images_node visitor.recorded_lifts depth place index
  cases source with
  | component place start =>
    exact Walk.images_owners (Walk.images_start nodes place start) (Place.owners place) _
  | repeater a =>
    exact Walk.images_owners (Walk.images_instances nodes a) (Place.owners a.owner) _

theorem walkFrom_respects {R : List RepeaterAddress → Walk μ → Walk.Outcome μ → Prop}
    (steady : Walk.Steady R) {visitor : Visitor μ} (presents : Walk.Presents R visitor)
    (s : Scene) (depth : Nat) (source : Source) (memory : μ) :
    R [] ⟨s, memory⟩ (s.walkFrom visitor depth source memory) := by
  have nodes := Walk.respects_node steady presents depth
  cases source with
  | component place start =>
    exact Walk.respects_owners steady [] place (Walk.respects_start nodes steady place start) _
  | repeater a =>
    exact Walk.respects_owners steady [] a.owner (Walk.respects_instances nodes steady a) _

/-- What is true of each answer of the visitor is true of each turn. -/
theorem forall_turns {visitor : Visitor μ} {J : Turn → Prop}
    (answers : ∀ memory t sight, J ⟨t, sight, (visitor memory t sight).edits⟩) (s : Scene)
    (depth : Nat) (source : Source) (memory : μ) :
    ∀ turn ∈ s.turns visitor depth source memory, J turn := by
  let R (_ : List RepeaterAddress) (w : Walk (Recorded μ)) (o : Walk.Outcome (Recorded μ)) : Prop :=
    (∀ turn ∈ w.memory.turns, J turn) → ∀ turn ∈ o.walk.memory.turns, J turn
  have steady : Walk.Steady R :=
    ⟨fun _ _ _ h => h, fun h _ h' hw => h' (h hw), fun h hw => h hw⟩
  have presents : Walk.Presents R visitor.recorded := by
    intro w sight _ hw
    rw [Walk.memory_shown]
    exact List.forall_mem_cons.mpr ⟨answers w.memory.memory w.scene sight, hw⟩
  intro turn hturn
  exact walkFrom_respects steady presents s depth source ⟨memory, []⟩
    (fun _ h => absurd h List.not_mem_nil) turn (List.mem_reverse.mp hturn)

end Scene

end RetainedScene
