import RetainedScene.Proofs.Scene.Trace

/-!
# What a walk respects

A relation between a moment of a walk and what comes of it later may depend on the chain of
repeaters that are in use. If it survives showing an item, and for a longer chain the time from
holding to releasing the last repeater, then it relates the start of every walk to its outcome,
whatever the visitor answers.
-/

set_option autoImplicit false

namespace RetainedScene

variable {μ : Type}

namespace Walk

def Respects (R : Walk μ → Outcome μ → Prop) (steps : Walk μ → Outcome μ) : Prop :=
  ∀ w, R w (steps w)

structure Steady (R : List RepeaterAddress → Walk μ → Outcome μ → Prop) : Prop where
  stop (chain : List RepeaterAddress) (w : Walk μ) (ending : Ending) : R chain w (w.stop ending)
  trans {chain : List RepeaterAddress} {w : Walk μ} {o o' : Outcome μ} :
    R chain w o → o.ending = .completed → R chain o.walk o' → R chain w o'
  held {a : RepeaterAddress} {w : Walk μ} {o : Outcome μ} :
    R (Place.owners a.owner ++ [a]) (w.hold a) o →
      R (Place.owners a.owner) w { o with walk := o.walk.release a }

/-- What comes of a walk when an item is shown, and nothing below it. -/
def shown (visitor : Visitor μ) (w : Walk μ) (sight : Sight) : Outcome μ :=
  w.offer visitor (·.stop .completed) sight

/-- A relation that a visitor respects, where the item that it is shown is in the scene. -/
def Presents (R : List RepeaterAddress → Walk μ → Outcome μ → Prop) (visitor : Visitor μ) :
    Prop :=
  ∀ (w : Walk μ) (sight : Sight),
    w.scene.root.item? sight.place sight.slot = some sight.item →
      R (Place.owners sight.place) w (w.shown visitor sight)

theorem walk_shown (visitor : Visitor μ) (w : Walk μ) (sight : Sight) :
    (w.shown visitor sight).walk = (w.present visitor sight).1 := by
  rw [shown, offer]
  split <;> simp_all [stop]

variable {R : List RepeaterAddress → Walk μ → Outcome μ → Prop}

theorem respects_each (steady : Steady R) {chain : List RepeaterAddress}
    {step : Nat → Walk μ → Outcome μ} (h : ∀ index, Respects (R chain) (step index))
    (count first : Nat) : Respects (R chain) (each step count first) := by
  induction count generalizing first with
  | zero => exact fun w => steady.stop chain w .completed
  | succ count ih =>
    intro w
    have hfirst := h first w
    rw [each]
    cases hending : (step first w).ending with
    | completed => exact steady.trans hfirst hending (ih (first + 1) _)
    | aborted => exact hfirst
    | fault fault => exact hfirst

theorem respects_holding (steady : Steady R) {a : RepeaterAddress} {steps : Walk μ → Outcome μ}
    (h : Respects (R (Place.owners a.owner ++ [a])) steps) :
    Respects (R (Place.owners a.owner)) (holding a steps) :=
  fun w => steady.held (h (w.hold a))

section

variable {enter : Place → Nat → Walk μ → Outcome μ}
  (h : ∀ place index, Respects (R (Place.owners place)) (enter place index))

include h

theorem respects_children (steady : Steady R) (place : Place) (first count : UInt32) :
    Respects (R (Place.owners place)) (children (enter place) first count) := by
  intro w
  rw [children]
  split
  · exact steady.stop _ w _
  · exact respects_each steady (h place) _ _ w

theorem respects_fromRoot (steady : Steady R) (place : Place) :
    Respects (R (Place.owners place)) (fromRoot enter place) := by
  intro w
  rw [fromRoot]
  split
  · exact steady.stop _ w _
  · split
    · exact steady.stop _ w _
    · exact h place 0 w

theorem respects_instances (steady : Steady R) (a : RepeaterAddress) :
    Respects (R (Place.owners a.owner)) (instances enter a) := by
  intro w
  rw [instances]
  split
  · exact steady.stop _ w _
  · refine respects_holding steady (respects_each steady (fun position => ?_) _ _) w
    rw [← Place.owners_instancePlace a position]
    exact respects_fromRoot h steady (a.instancePlace position)

theorem respects_start (steady : Steady R) (place : Place) (start : Start) :
    Respects (R (Place.owners place)) (Walk.start enter place · start) := by
  intro w
  cases start with
  | root => exact respects_fromRoot h steady place w
  | childrenOf index =>
    simp only [Walk.start, below]
    split
    · exact steady.stop _ w _
    · exact steady.stop _ w _
    · exact respects_children h steady place _ _ w

theorem respects_visit (steady : Steady R) {visitor : Visitor μ} (presents : Presents R visitor)
    (place : Place) (index : Nat) :
    Respects (R (Place.owners place)) (visit visitor enter place index) := by
  intro w
  cases hnode : w.node? place index with
  | none =>
    rw [visit_none hnode]
    exact steady.stop _ w _
  | some node =>
    cases node with
    | dynamic slot =>
      rw [visit_dynamic hnode]
      exact respects_instances h steady ⟨place, slot⟩ w
    | item slot first count =>
      cases hitem : w.scene.root.item? place slot with
      | none =>
        rw [visit_noItem hnode hitem]
        exact steady.stop _ w _
      | some item =>
        have hshown := presents w ⟨place, index, slot, item⟩ hitem
        rw [shown, offer] at hshown
        rw [visit_item hnode hitem, offer]
        generalize w.present visitor ⟨place, index, slot, item⟩ = presented at hshown ⊢
        obtain ⟨later, answer⟩ := presented
        cases answer with
        | error fault => exact hshown
        | ok action =>
          cases action with
          | abort => exact hshown
          | skipChildren => exact hshown
          | descend =>
            exact steady.trans hshown rfl (respects_children h steady place first count later)

end

theorem respects_node (steady : Steady R) {visitor : Visitor μ} (presents : Presents R visitor)
    (depth : Nat) (place : Place) (index : Nat) :
    Respects (R (Place.owners place)) (node visitor depth place index) := by
  induction depth generalizing place index with
  | zero => exact fun w => steady.stop _ w (.fault .tooDeep)
  | succ depth ih =>
    exact respects_visit (fun place index => ih place index) steady presents place index

theorem respects_tracedNode {R : List RepeaterAddress → Walk (Traced μ) → Outcome (Traced μ) → Prop}
    (steady : Steady R) {visitor : Visitor μ}
    (enters : ∀ (w : Walk (Traced μ)) (place : Place) (index : Nat),
      R (Place.owners place) w ((w.note (.enter place index)).stop .completed))
    (presents : Presents R visitor.traced) (depth : Nat) (place : Place) (index : Nat) :
    Respects (R (Place.owners place)) (tracedNode visitor depth place index) := by
  induction depth generalizing place index with
  | zero => exact fun w => steady.stop _ w (.fault .tooDeep)
  | succ depth ih =>
    intro w
    exact steady.trans (enters w place index) rfl
      (respects_visit (fun place index => ih place index) steady presents place index _)

/-- A walk of a nested component holds the repeaters on the way to it, the outermost first. -/
theorem respects_owners (steady : Steady R) {steps : Walk μ → Outcome μ} (outer place : Place)
    (h : Respects (R (Place.owners (outer ++ place))) steps) :
    Respects (R (Place.owners outer)) ((Place.ownersFrom outer place).foldr holding steps) := by
  induction place generalizing outer with
  | nil => simpa [Place.ownersFrom] using h
  | cons branch rest ih =>
    have inner := ih (outer ++ [branch]) (by simpa using h)
    rw [Place.ownersFrom, List.foldr_cons]
    apply respects_holding steady (a := ⟨outer, branch.repeater⟩)
    rw [← Place.owners_instancePlace ⟨outer, branch.repeater⟩ branch.position]
    exact inner

theorem present_eq (visitor : Visitor μ) (w : Walk μ) (sight : Sight) :
    w.present visitor sight =
      (⟨(w.scene.applyAll (visitor w.memory w.scene sight).edits).1,
          (visitor w.memory w.scene sight).memory⟩,
        (w.scene.applyAll (visitor w.memory w.scene sight).edits).2.elim
          (.ok (visitor w.memory w.scene sight).action) .error) := by
  rw [present]
  generalize w.scene.applyAll (visitor w.memory w.scene sight).edits = result
  obtain ⟨t, answer⟩ := result
  cases answer <;> rfl

theorem memory_shown (visitor : Visitor μ) (w : Walk μ) (sight : Sight) :
    (w.shown visitor sight).walk.memory = (visitor w.memory w.scene sight).memory := by
  rw [walk_shown, present_eq]

theorem scene_shown (visitor : Visitor μ) (w : Walk μ) (sight : Sight) :
    (w.shown visitor sight).walk.scene =
      (w.scene.applyAll (visitor w.memory w.scene sight).edits).1 := by
  rw [walk_shown, present_eq]

theorem ending_shown {visitor : Visitor μ} {w : Walk μ} {sight : Sight} {fault : Fault}
    (h : (w.scene.applyAll (visitor w.memory w.scene sight).edits).2 = some fault) :
    (w.shown visitor sight).ending = .fault fault := by
  rw [shown, offer, present_eq, h]
  rfl

end Walk

/-- What the memory of a traced walk keeps from call to call, it has at the end. -/
theorem Scene.trace_memory (s : Scene) (visitor : Visitor μ) (depth : Nat) (place : Place)
    (start : Start) (memory : μ) {J : Traced μ → Prop} (h : J ⟨memory, []⟩)
    (enters : ∀ traced place index,
      J traced → J { traced with events := .enter place index :: traced.events })
    (calls : ∀ traced s sight, J traced → J (visitor.traced traced s sight).memory) :
    J (s.trace visitor depth place start memory).walk.memory := by
  have steady : Walk.Steady fun _ (w : Walk (Traced μ)) o => J w.memory → J o.walk.memory :=
    ⟨fun _ _ _ h => h, fun h _ h' hw => h' (h hw), fun h hw => h hw⟩
  have presents : Walk.Presents (fun _ w o => J w.memory → J o.walk.memory) visitor.traced := by
    intro w sight _ hw
    rw [Walk.memory_shown]
    exact calls w.memory w.scene sight hw
  have nodes := Walk.respects_tracedNode steady (fun w => enters w.memory) presents depth
  exact Walk.respects_owners steady [] place
    (Walk.respects_start nodes steady place start) ⟨s, memory, []⟩ h

end RetainedScene
