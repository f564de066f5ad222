import RetainedScene.Proofs.Scene.Moving

/-!
# Sights

A visitor that only reads is shown the items as they are kept, so that the sights of a component can
be read off the marks that its walk leaves. They are as many as its items are counted.
-/

set_option autoImplicit false

namespace RetainedScene

variable {μ : Type}

/-- What a walk shows where it leaves a mark, if nothing has changed. -/
def Mark.sight? (root : Component) : Mark → Option Sight
  | entered _ _ => none
  | shown place index slot => (root.item? place slot).map (⟨place, index, slot, ·⟩)

/-- The sights are those of items that are kept there. -/
def Component.HasItems (root : Component) (sights : List Sight) : Prop :=
  ∀ sight ∈ sights, root.item? sight.place sight.slot = some sight.item

theorem filterMap_sight? {root : Component} {events : List Event}
    (h : root.HasItems ((events.filterMap Event.call?).map Call.sight)) :
    (events.map Event.mark).filterMap (Mark.sight? root) =
      (events.filterMap Event.call?).map Call.sight := by
  induction events with
  | nil => rfl
  | cons event rest ih =>
    cases event with
    | enter place index => exact ih h
    | call made =>
      obtain ⟨hfirst, hrest⟩ := List.forall_mem_cons.mp h
      have hsight : (Event.call made).mark.sight? root = some made.sight := by
        rw [Event.mark, Mark.sight?, hfirst]
        rfl
      rw [List.map_cons, List.filterMap_cons_some hsight, ih hrest]
      rfl

theorem countP_isShown (events : List Event) :
    (events.map Event.mark).countP Mark.isShown = (events.filterMap Event.call?).length := by
  induction events with
  | nil => rfl
  | cons event rest ih =>
    cases event with
    | enter place index => exact (List.countP_cons_of_neg Bool.false_ne_true).trans ih
    | call made => exact (List.countP_cons_of_pos rfl).trans (congrArg (· + 1) ih)

def Visitor.Reads (visitor : Visitor μ) : Prop :=
  ∀ memory s sight, (visitor memory s sight).edits = []

theorem Visitor.Reads.leaves {visitor : Visitor μ} (h : visitor.Reads) :
    visitor.LeavesRepeaters := by
  intro memory s sight _ edit hedit
  rw [h memory s sight] at hedit
  cases hedit

namespace Walk

/-- Between `w` and the outcome items were shown as they are kept, and nothing has changed. -/
def Read (w : Walk (Traced μ)) (o : Outcome (Traced μ)) : Prop :=
  ∃ sights, o.walk.seen = w.seen ++ sights ∧ o.walk.scene = w.scene ∧ w.scene.root.HasItems sights

theorem steady_read : Steady fun _ (w : Walk (Traced μ)) o => Read w o where
  stop _ _ _ := ⟨[], (List.append_nil _).symm, rfl, by simp [Component.HasItems]⟩
  trans {_ w o o'} h _ h' := by
    obtain ⟨earlier, hseen, hscene, hearlier⟩ := h
    obtain ⟨later, hseen', hscene', hlater⟩ := h'
    refine ⟨earlier ++ later, ?_, hscene'.trans hscene, ?_⟩
    · rw [hseen', hseen, List.append_assoc]
    · rw [hscene] at hlater
      exact List.forall_mem_append.mpr ⟨hearlier, hlater⟩
  held {a w o} h := by
    obtain ⟨sights, hseen, hscene, hkeeps⟩ := h
    refine ⟨sights, hseen, ?_, fun sight hsight => ?_⟩
    · change ({ o.walk.scene with root := o.walk.scene.root.modifyRepeaterAt a _ } : Scene) = _
      rw [hscene]
      exact congrArg (fun root => ({ w.scene with root } : Scene))
        (Component.modifyWalks_cancel w.scene.root a)
    · rw [← hkeeps sight hsight]
      exact (Component.item?_modifyWalks ..).symm

theorem presents_read {visitor : Visitor μ} (reads : visitor.Reads) :
    Presents (fun _ w o => Read w o) visitor.traced := by
  intro w sight hitem
  refine ⟨[sight], ?_, ?_, by simpa [Component.HasItems] using hitem⟩
  · rw [seen, memory_shown]
    simp [seen, Visitor.traced, Event.call?]
  · have hedits : (visitor.traced w.memory w.scene sight).edits = [] :=
      reads w.memory.memory w.scene sight
    rw [scene_shown, hedits, Scene.applyAll]

end Walk

namespace Scene

variable {s : Scene} {place : Place} {c : Component} {visitor : Visitor μ} {depth : Nat}

theorem read_trace (reads : visitor.Reads) (s : Scene) (depth : Nat) (place : Place)
    (start : Start) (memory : μ) :
    Walk.Read ⟨s, memory, []⟩ (s.trace visitor depth place start memory) := by
  have enters (w : Walk (Traced μ)) (p : Place) (index : Nat) :
      Walk.Read w ((w.note (.enter p index)).stop .completed) :=
    ⟨[], by simp [Walk.seen, Walk.stop, Walk.note, Event.call?], rfl, by simp [Component.HasItems]⟩
  have nodes := Walk.respects_tracedNode Walk.steady_read enters (Walk.presents_read reads) depth
  exact Walk.respects_owners Walk.steady_read [] place
    (Walk.respects_start nodes Walk.steady_read place start) ⟨s, memory, []⟩

/-- The recorder remembers what it has been shown. -/
theorem recorder_eq (s : Scene) (depth : Nat) (place : Place) (start : Start) :
    (s.walk .recorder depth place start []).walk.memory.reverse =
      (s.trace .recorder depth place start []).calls.map Call.sight := by
  have hmemory : (s.trace .recorder depth place start []).walk.memory.memory =
      ((s.trace .recorder depth place start []).walk.memory.events.filterMap Event.call?).map
        Call.sight := by
    refine s.trace_memory .recorder depth place start []
      (J := fun traced => traced.memory = (traced.events.filterMap Event.call?).map Call.sight)
      rfl (fun _ _ _ htraced => htraced) fun traced t sight htraced => ?_
    exact congrArg (sight :: ·) htraced
  rw [← s.trace_untraced .recorder depth place start []]
  change (s.trace .recorder depth place start []).walk.memory.memory.reverse = _
  rw [hmemory, Walk.Outcome.calls, Walk.Outcome.events, List.filterMap_reverse, List.map_reverse]

/-- The sights of a well-formed component are those of the items in its outline. -/
theorem sights_eq (hplace : s.root.get? place = some c)
    (hc : c.Throughout Component.WellFormed) {sights : List Sight}
    (hsights : ((c.roots place).flatMap Outline.marks).filterMap (Mark.sight? s.root) = sights) :
    s.sights place .root = .ok sights ∧ s.itemCount place = .ok sights.length := by
  have reads : Visitor.recorder.Reads := fun _ _ _ => rfl
  have descends : Visitor.recorder.Descends := fun _ _ _ => rfl
  obtain ⟨hending, hmarks⟩ :=
    marks_eq [] hplace hc reads.leaves descends (Component.size_get? hplace)
  obtain ⟨seen, hseen, -, hkeeps⟩ := read_trace reads s s.root.size place .root []
  have hcalls : (s.trace .recorder s.root.size place .root []).calls.map Call.sight = seen := hseen
  have hshown := filterMap_sight? (hcalls ▸ hkeeps)
  rw [marks] at hmarks
  rw [hmarks, hsights] at hshown
  constructor
  · rw [Scene.sights, Walk.Outcome.memory?, depth, hending]
    refine congrArg Except.ok ?_
    rw [recorder_eq, Walk.Outcome.calls, hshown]
  · rw [itemCount_eq hplace hc, Component.shownAt_eq hplace, ← hmarks, countP_isShown, hshown,
      List.length_map]

end Scene

end RetainedScene
