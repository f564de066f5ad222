import RetainedScene.Scene.Walk

/-!
# Traces of walks

A traced walk writes down each node that it enters and each call of its visitor, and is otherwise
the walk itself: `Scene.trace_untraced`.
-/

set_option autoImplicit false

namespace RetainedScene

variable {μ ν : Type}

structure Call where
  scene : Scene
  sight : Sight
  action : Action

inductive Event
  | enter (place : Place) (index : Nat)
  | call (made : Call)

/-- A memory and what has happened so far, the latest first. -/
structure Traced (μ : Type) where
  memory : μ
  events : List Event

def Visitor.traced (visitor : Visitor μ) : Visitor (Traced μ) := fun traced scene sight =>
  let reply := visitor traced.memory scene sight
  ⟨⟨reply.memory, .call ⟨scene, sight, reply.action⟩ :: traced.events⟩, reply.edits, reply.action⟩

def Reply.withMemory (f : μ → ν) (reply : Reply μ) : Reply ν :=
  ⟨f reply.memory, reply.edits, reply.action⟩

/-- `visitor'` answers like `visitor`, from the image of its memory. -/
def Visitor.Lifts (f : μ → ν) (visitor : Visitor μ) (visitor' : Visitor ν) : Prop :=
  ∀ memory s sight, (visitor memory s sight).withMemory f = visitor' (f memory) s sight

theorem Visitor.traced_lifts (visitor : Visitor μ) :
    visitor.traced.Lifts Traced.memory visitor :=
  fun _ _ _ => rfl

namespace Walk

def note (w : Walk (Traced μ)) (event : Event) : Walk (Traced μ) :=
  { w with memory := { w.memory with events := event :: w.memory.events } }

def tracedNode (visitor : Visitor μ) :
    (depth : Nat) → Place → (index : Nat) → Walk (Traced μ) → Outcome (Traced μ)
  | 0, _, _, w => w.stop (.fault .tooDeep)
  | depth + 1, place, index, w =>
    (w.note (.enter place index)).visit visitor.traced
      (fun place index w => tracedNode visitor depth place index w) place index

end Walk

def Walk.Outcome.events (o : Walk.Outcome (Traced μ)) : List Event :=
  o.walk.memory.events.reverse

def Event.call? : Event → Option Call
  | enter _ _ => none
  | call made => some made

def Walk.Outcome.calls (o : Walk.Outcome (Traced μ)) : List Call :=
  o.events.filterMap Event.call?

def Scene.trace (s : Scene) (visitor : Visitor μ) (depth : Nat) (place : Place) (start : Start)
    (memory : μ) : Walk.Outcome (Traced μ) :=
  s.walkBy (Walk.tracedNode visitor depth) place start ⟨memory, []⟩

namespace Walk

def withMemory (f : μ → ν) (w : Walk μ) : Walk ν :=
  ⟨w.scene, f w.memory⟩

def Outcome.withMemory (f : μ → ν) (o : Outcome μ) : Outcome ν :=
  ⟨o.ending, o.walk.withMemory f⟩

/-- What `steps` does with a memory, `steps'` does with its image. -/
def Images (f : μ → ν) (steps : Walk μ → Outcome μ) (steps' : Walk ν → Outcome ν) : Prop :=
  ∀ w, (steps w).withMemory f = steps' (w.withMemory f)

section

variable {f : μ → ν}

theorem images_stop (ending : Ending) : Images f (·.stop ending) (·.stop ending) :=
  fun _ => rfl

theorem images_holding {steps : Walk μ → Outcome μ} {steps' : Walk ν → Outcome ν}
    (a : RepeaterAddress) (h : Images f steps steps') :
    Images f (holding a steps) (holding a steps') := by
  intro w
  have hheld := h (w.hold a)
  change _ = (let outcome := steps' ((w.hold a).withMemory f)
    { outcome with walk := outcome.walk.release a } : Outcome ν)
  rw [← hheld]
  rfl

theorem images_each {step : Nat → Walk μ → Outcome μ} {step' : Nat → Walk ν → Outcome ν}
    (h : ∀ index, Images f (step index) (step' index)) (count first : Nat) :
    Images f (each step count first) (each step' count first) := by
  induction count generalizing first with
  | zero => exact images_stop .completed
  | succ count ih =>
    intro w
    rw [each, each, ← h first w]
    cases hending : (step first w).ending with
    | completed => simpa [Outcome.withMemory, hending] using ih (first + 1) (step first w).walk
    | aborted => simp [Outcome.withMemory, hending]
    | fault fault => simp [Outcome.withMemory, hending]

variable {enter : Place → Nat → Walk μ → Outcome μ} {enter' : Place → Nat → Walk ν → Outcome ν}
  (h : ∀ place index, Images f (enter place index) (enter' place index))

include h

theorem images_children (place : Place) (first count : UInt32) :
    Images f (children (enter place) first count) (children (enter' place) first count) := by
  intro w
  by_cases hfits : UInt32.size ≤ first.toNat + count.toNat
  · rw [children, children, if_pos hfits, if_pos hfits]
    rfl
  · rw [children, children, if_neg hfits, if_neg hfits]
    exact images_each (h place) count.toNat first.toNat w

theorem images_fromRoot (place : Place) :
    Images f (fromRoot enter place) (fromRoot enter' place) := by
  intro w
  have hsame : (w.withMemory f).component? place = w.component? place := rfl
  rw [fromRoot, fromRoot, hsame]
  cases w.component? place with
  | none => rfl
  | some c =>
    by_cases hempty : c.tree.isEmpty
    · simp only [hempty, if_true]
      rfl
    · simp only [hempty]
      exact h place 0 w

theorem images_instances (a : RepeaterAddress) :
    Images f (instances enter a) (instances enter' a) := by
  intro w
  have hsame : (w.withMemory f).scene = w.scene := rfl
  rw [instances, instances, hsame]
  cases w.scene.root.repeater? a with
  | none => rfl
  | some r =>
    exact images_holding a
      (images_each (fun position => images_fromRoot h (a.instancePlace position)) r.length 0) w

theorem images_start (place : Place) (start : Start) :
    Images f (Walk.start enter place · start) (Walk.start enter' place · start) := by
  intro w
  cases start with
  | root => exact images_fromRoot h place w
  | childrenOf index =>
    have hsame : (w.withMemory f).node? place index = w.node? place index := rfl
    simp only [Walk.start, below, hsame]
    cases w.node? place index with
    | none => rfl
    | some node =>
      cases node with
      | dynamic slot => rfl
      | item slot first count => exact images_children h place first count w

end

theorem images_offer {visitor : Visitor μ} {visitor' : Visitor ν} {f : μ → ν}
    (lifts : visitor.Lifts f visitor') {below : Walk μ → Outcome μ} {below' : Walk ν → Outcome ν}
    (h : Images f below below') (sight : Sight) :
    Images f (offer visitor below · sight) (offer visitor' below' · sight) := by
  intro w
  simp only [offer, present, withMemory]
  rw [← lifts w.memory w.scene sight]
  generalize visitor w.memory w.scene sight = reply
  simp only [Reply.withMemory]
  obtain ⟨scene, refused⟩ := w.scene.applyAll reply.edits
  cases refused with
  | some fault => rfl
  | none =>
    cases reply.action with
    | abort => rfl
    | skipChildren => rfl
    | descend => exact h _

theorem images_visit {visitor : Visitor μ} {visitor' : Visitor ν} {f : μ → ν}
    (lifts : visitor.Lifts f visitor') {enter : Place → Nat → Walk μ → Outcome μ}
    {enter' : Place → Nat → Walk ν → Outcome ν}
    (h : ∀ place index, Images f (enter place index) (enter' place index))
    (place : Place) (index : Nat) :
    Images f (visit visitor enter place index) (visit visitor' enter' place index) := by
  intro w
  have hsame : (w.withMemory f).node? place index = w.node? place index := rfl
  have hitem : ∀ slot, (w.withMemory f).scene.root.item? place slot =
    w.scene.root.item? place slot := fun _ => rfl
  cases hnode : w.node? place index with
  | none =>
    rw [visit_none hnode, visit_none (hsame.trans hnode)]
    rfl
  | some node =>
    cases node with
    | dynamic slot =>
      rw [visit_dynamic hnode, visit_dynamic (hsame.trans hnode)]
      exact images_instances h ⟨place, slot⟩ w
    | item slot first count =>
      cases hi : w.scene.root.item? place slot with
      | none =>
        rw [visit_noItem hnode hi, visit_noItem (hsame.trans hnode) ((hitem slot).trans hi)]
        rfl
      | some item =>
        rw [visit_item hnode hi, visit_item (hsame.trans hnode) ((hitem slot).trans hi)]
        exact images_offer lifts (images_children h place first count) _ w

theorem images_node {visitor : Visitor μ} {visitor' : Visitor ν} {f : μ → ν}
    (lifts : visitor.Lifts f visitor') (depth : Nat) (place : Place) (index : Nat) :
    Images f (node visitor depth place index) (node visitor' depth place index) := by
  induction depth generalizing place index with
  | zero => exact images_stop (.fault .tooDeep)
  | succ depth ih =>
    intro w
    exact images_visit lifts (fun place index => ih place index) place index w

theorem images_owners {f : μ → ν} {steps : Walk μ → Outcome μ} {steps' : Walk ν → Outcome ν}
    (h : Images f steps steps') (owners : List RepeaterAddress) :
    Images f (owners.foldr holding steps) (owners.foldr holding steps') := by
  induction owners with
  | nil => exact h
  | cons a rest ih => exact images_holding a ih

theorem tracedNode_untraced (visitor : Visitor μ) (depth : Nat) (place : Place) (index : Nat) :
    Images Traced.memory (tracedNode visitor depth place index)
      (node visitor depth place index) := by
  induction depth generalizing place index with
  | zero => exact images_stop (.fault .tooDeep)
  | succ depth ih =>
    intro w
    exact images_visit visitor.traced_lifts (fun place index => ih place index) place index
      (w.note (.enter place index))

end Walk

theorem Scene.trace_untraced (s : Scene) (visitor : Visitor μ) (depth : Nat) (place : Place)
    (start : Start) (memory : μ) :
    (s.trace visitor depth place start memory).withMemory Traced.memory =
      s.walk visitor depth place start memory :=
  Walk.images_owners (Walk.images_start (fun place index =>
    Walk.tracedNode_untraced visitor depth place index) place start) (Place.owners place)
    ⟨s, memory, []⟩

end RetainedScene
