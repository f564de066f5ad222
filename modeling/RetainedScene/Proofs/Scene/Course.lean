import RetainedScene.Proofs.Scene.Founded
import RetainedScene.Proofs.Scene.Trace

/-!
# The course of a walk

A walk whose visitor leaves the repeaters alone goes through the outline of where it starts, from
the front, and the visitor's answers decide how it goes on at each item: with what lies below the
item, past all of that, or not at all.
-/

set_option autoImplicit false

namespace RetainedScene

/-- The item of a node is shown as it is kept at that moment. -/
def Call.Shows (call : Call) (place : Place) (index slot : Nat) : Prop :=
  call.sight.place = place ∧ call.sight.index = index ∧ call.sight.slot = slot ∧
    call.scene.root.item? place slot = some call.sight.item

/-- What happens on the way through some outlines, and how it ends. -/
inductive Course : List Outline → List Event → Ending → Prop
  | done : Course [] [] .completed
  | missing {place : Place} {index : Nat} {rest : List Outline} :
      Course (.missing place index :: rest) [.enter place index] (.fault .indexOutOfRange)
  | dynamic {place : Place} {index : Nat} {instances rest : List Outline} {events : List Event}
      {ending : Ending} (h : Course (instances ++ rest) events ending) :
      Course (.dynamic place index instances :: rest) (.enter place index :: events) ending
  | descend {place : Place} {index slot : Nat} {below rest : List Outline} {call : Call}
      {events : List Event} {ending : Ending} (shows : call.Shows place index slot)
      (answer : call.action = .descend) (h : Course (below ++ rest) events ending) :
      Course (.item place index slot below :: rest)
        (.enter place index :: .call call :: events) ending
  /-- Nothing of what lies below is met, and all that comes after it is. -/
  | skip {place : Place} {index slot : Nat} {below rest : List Outline} {call : Call}
      {events : List Event} {ending : Ending} (shows : call.Shows place index slot)
      (answer : call.action = .skipChildren) (h : Course rest events ending) :
      Course (.item place index slot below :: rest)
        (.enter place index :: .call call :: events) ending
  | abort {place : Place} {index slot : Nat} {below rest : List Outline} {call : Call}
      (shows : call.Shows place index slot) (answer : call.action = .abort) :
      Course (.item place index slot below :: rest)
        [.enter place index, .call call] .aborted

namespace Course

variable {os os' : List Outline} {events events' : List Event} {ending : Ending}

theorem append (h : Course os events .completed) (h' : Course os' events' ending) :
    Course (os ++ os') (events ++ events') ending := by
  generalize he : Ending.completed = first at h
  induction h with
  | done => exact h'
  | missing => cases he
  | dynamic _ ih => exact .dynamic (List.append_assoc .. ▸ ih he)
  | descend shows answer _ ih =>
    exact .descend shows answer (List.append_assoc .. ▸ ih he)
  | skip shows answer _ ih => exact .skip shows answer (ih he)
  | abort => cases he

theorem stopped (h : Course os events ending) (he : ending ≠ .completed) (rest : List Outline) :
    Course (os ++ rest) events ending := by
  induction h with
  | done => exact absurd rfl he
  | missing => exact .missing
  | dynamic _ ih => exact .dynamic (List.append_assoc .. ▸ ih he)
  | descend shows answer _ ih =>
    exact .descend shows answer (List.append_assoc .. ▸ ih he)
  | skip shows answer _ ih => exact .skip shows answer (ih he)
  | abort shows answer => exact .abort shows answer

end Course

/-- Moves an item that is there, or changes the color of the host. -/
def Edit.LeavesRepeaters (s : Scene) : Edit → Prop
  | update _ _ => False
  | clear _ => False
  | setHost _ => True
  | setGeometry owner slot _ => (s.root.item? owner slot).isSome

def Visitor.LeavesRepeaters {μ : Type} (visitor : Visitor μ) : Prop :=
  ∀ memory s sight, s.root.item? sight.place sight.slot = some sight.item →
    ∀ edit ∈ (visitor memory s sight).edits, edit.LeavesRepeaters s

theorem Scene.apply_leaves {s : Scene} {edit : Edit} (h : edit.LeavesRepeaters s) :
    ∃ t, s.apply edit = .ok t ∧ t.root.frames = s.root.frames := by
  cases edit with
  | update a feed => exact h.elim
  | clear a => exact h.elim
  | setHost host => exact ⟨_, rfl, rfl⟩
  | setGeometry owner slot geometry =>
    obtain ⟨item, hitem⟩ := Option.isSome_iff_exists.mp h
    refine ⟨_, by simp only [apply, hitem]; rfl, ?_⟩
    exact Component.frames_modifyItem s.root owner slot (·.withGeometry geometry)

theorem Edit.LeavesRepeaters.of_frames {s t : Scene} (hframes : t.root.frames = s.root.frames)
    {edit : Edit} (h : edit.LeavesRepeaters s) : edit.LeavesRepeaters t := by
  cases edit with
  | update a feed => exact h
  | clear a => exact h
  | setHost host => trivial
  | setGeometry owner slot geometry =>
    simpa only [LeavesRepeaters, Component.item?_isSome_eq, hframes] using h

theorem Scene.applyAll_leaves {s : Scene} {edits : List Edit}
    (h : ∀ edit ∈ edits, edit.LeavesRepeaters s) :
    ∃ t, s.applyAll edits = (t, none) ∧ t.root.frames = s.root.frames := by
  induction edits generalizing s with
  | nil => exact ⟨s, rfl, rfl⟩
  | cons edit rest ih =>
    obtain ⟨changed, happly, hchanged⟩ := apply_leaves (h edit List.mem_cons_self)
    obtain ⟨t, hrest, ht⟩ := ih fun e he =>
      (h e (List.mem_cons_of_mem _ he)).of_frames hchanged
    exact ⟨t, by rw [applyAll, happly]; exact hrest, ht.trans hchanged⟩

variable {μ : Type}

namespace Walk

/-- Between `w` and the outcome the walk went through the outlines, and it has left the frames as
    they were. -/
def Went (frames : Place → Option Frame) (os : List Outline) (w : Walk (Traced μ))
    (outcome : Outcome (Traced μ)) : Prop :=
  ∃ events, outcome.walk.scene.root.frames = frames ∧
    outcome.walk.memory.events = events.reverse ++ w.memory.events ∧
    Course os events outcome.ending

def Follows (frames : Place → Option Frame) (os : List Outline)
    (steps : Walk (Traced μ) → Outcome (Traced μ)) : Prop :=
  ∀ w, w.scene.root.frames = frames → Went frames os w (steps w)

variable {frames : Place → Option Frame}

theorem follows_nil : Follows (μ := μ) frames [] (·.stop .completed) :=
  fun _ hw => ⟨[], hw, rfl, .done⟩

theorem frames_hold (w : Walk μ) (a : RepeaterAddress) :
    (w.hold a).scene.root.frames = w.scene.root.frames :=
  Component.frames_modifyWalks w.scene.root a (· + 1)

theorem frames_release (w : Walk μ) (a : RepeaterAddress) :
    (w.release a).scene.root.frames = w.scene.root.frames :=
  Component.frames_modifyWalks w.scene.root a (· - 1)

theorem follows_holding {os : List Outline} {steps : Walk (Traced μ) → Outcome (Traced μ)}
    (a : RepeaterAddress) (h : Follows frames os steps) : Follows frames os (holding a steps) := by
  intro w hw
  obtain ⟨events, hframes, hevents, hcourse⟩ := h (w.hold a) ((frames_hold w a).trans hw)
  exact ⟨events, (frames_release _ a).trans hframes, hevents, hcourse⟩

theorem follows_each {step : Nat → Walk (Traced μ) → Outcome (Traced μ)}
    {os : Nat → List Outline} (count first : Nat)
    (h : ∀ index, first ≤ index → index < first + count → Follows frames (os index) (step index)) :
    Follows frames ((List.range' first count).flatMap os) (each step count first) := by
  induction count generalizing first with
  | zero => exact follows_nil
  | succ count ih =>
    intro w hw
    obtain ⟨events, hframes, hevents, hcourse⟩ := h first (by omega) (by omega) w hw
    have later := ih (first + 1) fun index h1 h2 => h index (by omega) (by omega)
    rw [List.range'_succ, List.flatMap_cons, each]
    cases hending : (step first w).ending with
    | completed =>
      obtain ⟨events', hframes', hevents', hcourse'⟩ := later (step first w).walk hframes
      refine ⟨events ++ events', hframes', ?_, ?_⟩
      · simp only [hevents', hevents, List.reverse_append, List.append_assoc]
      · exact .append (hending ▸ hcourse) hcourse'
    | aborted => exact ⟨events, hframes, hevents, hcourse.stopped (by simp [hending]) _⟩
    | fault fault => exact ⟨events, hframes, hevents, hcourse.stopped (by simp [hending]) _⟩

theorem follows_children {enter : Nat → Walk (Traced μ) → Outcome (Traced μ)}
    {os : Nat → Outline} {first count : UInt32}
    (hfits : first.toNat + count.toNat < UInt32.size)
    (h : ∀ index, first.toNat ≤ index → index < first.toNat + count.toNat →
      Follows frames [os index] (enter index)) :
    Follows frames ((List.range' first.toNat count.toNat).map os)
      (children enter first count) := by
  intro w hw
  rw [children, if_neg (by omega), List.map_eq_flatMap]
  exact follows_each count.toNat first.toNat h w hw

theorem follows_item {visitor : Visitor μ} (leaves : visitor.LeavesRepeaters) {place : Place}
    {index slot : Nat} {item : Item} {below : Walk (Traced μ) → Outcome (Traced μ)}
    {os : List Outline} (h : Follows frames os below) {w : Walk (Traced μ)}
    (hw : w.scene.root.frames = frames) (hitem : w.scene.root.item? place slot = some item) :
    Went frames [.item place index slot os] w
      ((w.note (.enter place index)).offer visitor.traced below ⟨place, index, slot, item⟩) := by
  have hleaves := leaves w.memory.memory w.scene ⟨place, index, slot, item⟩ hitem
  simp only [offer, present, Visitor.traced, note]
  generalize visitor w.memory.memory w.scene ⟨place, index, slot, item⟩ = reply at hleaves ⊢
  obtain ⟨scene, happly, hscene⟩ := Scene.applyAll_leaves hleaves
  obtain ⟨call, hcall⟩ : ∃ call : Call, call = ⟨w.scene, ⟨place, index, slot, item⟩, reply.action⟩ :=
    ⟨_, rfl⟩
  have shows : call.Shows place index slot := by
    subst hcall
    exact ⟨rfl, rfl, rfl, hitem⟩
  have answer : call.action = reply.action := by rw [hcall]
  rw [happly, ← hcall]
  cases haction : reply.action with
  | abort =>
    exact ⟨[.enter place index, .call call], hscene.trans hw, rfl,
      .abort shows (answer.trans haction)⟩
  | skipChildren =>
    exact ⟨[.enter place index, .call call], hscene.trans hw, rfl,
      .skip shows (answer.trans haction) .done⟩
  | descend =>
    obtain ⟨events, hframes, hevents, hcourse⟩ := h ⟨scene, _⟩ (hscene.trans hw)
    refine ⟨.enter place index :: .call call :: events, hframes, hevents.trans ?_,
      .descend shows (answer.trans haction) (by rwa [List.append_nil])⟩
    simp

theorem follows_fromRoot {enter : Place → Nat → Walk (Traced μ) → Outcome (Traced μ)}
    {root c : Component} {place : Place} (hplace : root.get? place = some c)
    (h : 0 < c.tree.length → Follows root.frames [c.outlineAt place 0] (enter place 0)) :
    Follows root.frames (c.roots place) (fromRoot enter place) := by
  intro w hw
  have hframe : (w.component? place).map Component.frame = some c.frame := by
    have := congrFun hw place
    rwa [Component.frames, Component.frames, hplace] at this
  obtain ⟨d, hd, hsame⟩ := Option.map_eq_some_iff.mp hframe
  have htree : d.tree = c.tree := congrArg Frame.tree hsame
  rw [fromRoot, hd, Component.roots_eq]
  simp only [htree]
  cases ht : c.tree with
  | nil => exact follows_nil w hw
  | cons node rest => exact h (by simp [ht]) w hw

theorem follows_instances {enter : Place → Nat → Walk (Traced μ) → Outcome (Traced μ)}
    {root c : Component} {place : Place} {slot : Nat} {r : Repeater Component}
    (hplace : root.get? place = some c) (hr : c.repeaters[slot]? = some r)
    (h : ∀ position d, r.instances[position]? = some d → 0 < d.tree.length →
      Follows root.frames
        [d.outlineAt ((⟨place, slot⟩ : RepeaterAddress).instancePlace position) 0]
        (enter ((⟨place, slot⟩ : RepeaterAddress).instancePlace position) 0)) :
    Follows root.frames (c.outlinesOf place slot) (instances enter ⟨place, slot⟩) := by
  intro w hw
  have hlength : (w.scene.root.repeater? ⟨place, slot⟩).map Repeater.length = some r.length := by
    rw [Component.length_repeater?, hw, ← Component.length_repeater?, Component.repeater?, hplace]
    simp [hr]
  obtain ⟨r', hr', hsame⟩ := Option.map_eq_some_iff.mp hlength
  rw [instances, hr', Component.outlinesOf_eq_flatMap place hr]
  refine follows_holding _ ?_ w hw
  rw [hsame]
  refine follows_each r.length 0 fun position _ hposition => ?_
  have hlt : position < r.instances.length := by simpa [Repeater.length] using hposition
  obtain ⟨d, hd⟩ : ∃ d, r.instances[position]? = some d := ⟨_, List.getElem?_eq_getElem hlt⟩
  rw [hd, Option.elim_some]
  refine follows_fromRoot ?_ (h position d hd)
  rw [Component.get?_instancePlace root c place slot position hplace]
  exact Component.instance?_eq_some hr hd

theorem follows_tracedNode {visitor : Visitor μ} (leaves : visitor.LeavesRepeaters)
    {root c : Component} {place : Place} {index depth : Nat} (hplace : root.get? place = some c)
    (hc : c.Throughout Component.Forward) (hdepth : c.size ≤ depth + index) (hpos : 0 < depth) :
    Follows root.frames [c.outlineAt place index] (tracedNode visitor depth place index) := by
  -- A child is further on in the same array, and an instance is smaller than its owner: either way
  -- the depth that is left is enough.
  induction depth generalizing c place index with
  | zero => omega
  | succ depth ih =>
    intro w hw
    have hnode : (w.note (.enter place index)).node? place index = c.tree[index]? := by
      have hframe := congrFun hw place
      rw [Component.frames, Component.frames, hplace] at hframe
      obtain ⟨d, hd, hsame⟩ := Option.map_eq_some_iff.mp hframe
      have htree : d.tree = c.tree := congrArg Frame.tree hsame
      simp only [node?, component?, note, hd, Option.bind_some, htree]
    rw [tracedNode]
    cases hn : c.tree[index]? with
    | none =>
      rw [visit_none (hnode.trans hn),
        Component.outlineAt_missing place (List.getElem?_eq_none_iff.mp hn)]
      exact ⟨[.enter place index], hw, rfl, .missing⟩
    | some node =>
      have hsize := c.size_eq
      have hindex : index < c.tree.length := (List.getElem?_eq_some_iff.mp hn).choose
      cases node with
      | dynamic slot =>
        rw [visit_dynamic (hnode.trans hn), Component.outlineAt_dynamic place hn]
        have hslot := hc.here.repeater hn
        have hr := List.getElem?_eq_getElem hslot
        obtain ⟨events, hframes, hevents, hcourse⟩ := follows_instances hplace hr
          (fun position d hd hne => ih
            ((Component.get?_instancePlace root c place slot position hplace).trans
              (Component.instance?_eq_some hr hd))
            (hc.generated hn hr (List.mem_of_getElem? hd))
            (by have := Component.size_instance hr (List.mem_of_getElem? hd); omega)
            (by omega))
          (w.note (.enter place index)) hw
        exact ⟨.enter place index :: events, hframes, hevents.trans (by simp [note]),
          .dynamic (by rwa [List.append_nil])⟩
      | item slot first count =>
        have hslot := hc.here.item hn
        have hsome : (w.scene.root.item? place slot).isSome := by
          rw [Component.item?_isSome_eq, hw, Component.frames, hplace]
          simpa [Component.frame] using hslot
        obtain ⟨item, hitem⟩ := Option.isSome_iff_exists.mp hsome
        rw [visit_item (hnode.trans hn) hitem,
          Component.outlineAt_item place hn (hc.here.after hn)]
        refine follows_item leaves (follows_children (hc.here.fits hn) ?_) hw hitem
        intro child h1 h2
        have hafter := hc.here.after hn fun hzero => by
          subst hzero
          simp at h2
          omega
        exact ih hplace hc (by omega) (by omega)

end Walk

end RetainedScene
