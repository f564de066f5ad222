import RetainedScene.Proofs.Scene.RootWalk

/-!
# Where walks start

A walk of a component starts with the outlines of its root, or with those of the children of one of
its item nodes. Each outline on the way is the one of its node in the scene, and a child that is
missing is one past the end of the array.
-/

set_option autoImplicit false

namespace RetainedScene

variable {μ : Type}

namespace Outline

def place : Outline → Place
  | item place _ _ _ => place
  | dynamic place _ _ => place
  | missing place _ => place

def index : Outline → Nat
  | item _ index _ _ => index
  | dynamic _ index _ => index
  | missing _ index => index

/-- An outline and all that it is made of have a property. -/
inductive All (P : Outline → Prop) : Outline → Prop
  | item {place : Place} {index slot : Nat} {below : List Outline}
      (here : P (.item place index slot below)) (inner : ∀ o ∈ below, All P o) :
      All P (.item place index slot below)
  | dynamic {place : Place} {index : Nat} {instances : List Outline}
      (here : P (.dynamic place index instances)) (inner : ∀ o ∈ instances, All P o) :
      All P (.dynamic place index instances)
  | missing {place : Place} {index : Nat} (here : P (.missing place index)) :
      All P (.missing place index)

variable {P : Outline → Prop}

theorem All.here {o : Outline} (h : o.All P) : P o := by
  cases h <;> assumption

theorem all_below {place : Place} {index slot : Nat} {below rest : List Outline}
    (h : ∀ o ∈ item place index slot below :: rest, o.All P) : ∀ o ∈ below ++ rest, o.All P := by
  intro o ho
  rcases List.mem_append.mp ho with ho | ho
  · cases h _ List.mem_cons_self with
    | item _ inner => exact inner o ho
  · exact h o (List.mem_cons_of_mem _ ho)

theorem all_instances {place : Place} {index : Nat} {instances rest : List Outline}
    (h : ∀ o ∈ dynamic place index instances :: rest, o.All P) :
    ∀ o ∈ instances ++ rest, o.All P := by
  intro o ho
  rcases List.mem_append.mp ho with ho | ho
  · cases h _ List.mem_cons_self with
    | dynamic _ inner => exact inner o ho
  · exact h o (List.mem_cons_of_mem _ ho)

/-- The outline is the one of its node. -/
def Located (root : Component) (o : Outline) : Prop :=
  ∃ c, root.get? o.place = some c ∧ c.Forward ∧ o = c.outlineAt o.place o.index

end Outline

/-- No node of its component has the number. -/
def Component.Beyond (root : Component) (place : Place) (index : Nat) : Prop :=
  ∃ c, root.get? place = some c ∧ c.tree.length ≤ index

namespace Component

variable {root c : Component} {place : Place}

theorem outlineAt_place (h : c.Forward) (place : Place) (index : Nat) :
    (c.outlineAt place index).place = place ∧ (c.outlineAt place index).index = index := by
  cases hnode : c.tree[index]? with
  | none =>
    rw [outlineAt_missing place (List.getElem?_eq_none_iff.mp hnode)]
    exact ⟨rfl, rfl⟩
  | some node =>
    cases node with
    | item slot first count =>
      rw [outlineAt_item place hnode (h.after hnode)]
      exact ⟨rfl, rfl⟩
    | dynamic slot =>
      rw [outlineAt_dynamic place hnode]
      exact ⟨rfl, rfl⟩

theorem located_outlineAt (hplace : root.get? place = some c) (h : c.Forward) (index : Nat) :
    (c.outlineAt place index).Located root := by
  obtain ⟨hp, hi⟩ := outlineAt_place h place index
  exact ⟨c, by rw [hp, hplace], h, by rw [hp, hi]⟩

theorem eq_outlineAt {o : Outline} (h : o.Located root) (hplace : root.get? o.place = some c) :
    o = c.outlineAt o.place o.index := by
  obtain ⟨d, hd, -, ho⟩ := h
  obtain rfl : d = c := Option.some.inj (hd.symm.trans hplace)
  exact ho

/-- A node is missing exactly if its number is past the end of the array. -/
theorem beyond_of_missing {index : Nat} (h : (Outline.missing place index).Located root) :
    root.Beyond place index := by
  obtain ⟨c, hplace, hforward, ho⟩ := h
  refine ⟨c, hplace, Nat.le_of_not_lt fun hindex => ?_⟩
  have hnode := List.getElem?_eq_getElem hindex
  cases hn : c.tree[index] with
  | item slot first count =>
    rw [hn] at hnode
    have hitem := outlineAt_item place hnode (hforward.after hnode)
    exact Outline.noConfusion (ho.trans hitem)
  | dynamic slot =>
    rw [hn] at hnode
    exact Outline.noConfusion (ho.trans (outlineAt_dynamic place hnode))

theorem missing_of_beyond {o : Outline} (h : o.Located root)
    (beyond : root.Beyond o.place o.index) : o = .missing o.place o.index := by
  obtain ⟨c, hplace, hlength⟩ := beyond
  rw [← outlineAt_missing o.place hlength]
  exact eq_outlineAt h hplace

theorem all_located (hplace : root.get? place = some c) (h : c.Throughout Forward) (index : Nat) :
    (c.outlineAt place index).All (Outline.Located root) := by
  induction h generalizing place index with
  | @intro c here _ ih =>
    -- Later nodes first: the children of a node are among them.
    obtain ⟨rest, hrest⟩ : ∃ rest, rest = c.tree.length - index := ⟨_, rfl⟩
    induction rest using Nat.strongRecOn generalizing index with
    | ind rest later =>
      have hlocated := located_outlineAt hplace here index
      cases hnode : c.tree[index]? with
      | none =>
        rw [outlineAt_missing place (List.getElem?_eq_none_iff.mp hnode)] at hlocated ⊢
        exact .missing hlocated
      | some node =>
        have hindex : index < c.tree.length := (List.getElem?_eq_some_iff.mp hnode).choose
        cases node with
        | item slot first count =>
          rw [outlineAt_item place hnode (here.after hnode)] at hlocated ⊢
          refine .item hlocated fun o ho => ?_
          obtain ⟨child, hchild, rfl⟩ := List.mem_map.mp ho
          rw [List.mem_range'_1] at hchild
          have hafter := here.after hnode fun hzero => by
            subst hzero
            simp at hchild
            omega
          exact later (c.tree.length - child) (by omega) child rfl
        | dynamic slot =>
          rw [outlineAt_dynamic place hnode] at hlocated ⊢
          refine .dynamic hlocated fun o ho => ?_
          obtain ⟨r, hr⟩ : ∃ r, c.repeaters[slot]? = some r :=
            ⟨_, List.getElem?_eq_getElem (here.repeater hnode)⟩
          rw [outlinesOf_eq_flatMap place hr] at ho
          obtain ⟨position, -, ho⟩ := List.mem_flatMap.mp ho
          cases hd : r.instances[position]? with
          | none => simp [hd] at ho
          | some d =>
            rw [hd, Option.elim_some] at ho
            obtain ⟨-, rfl⟩ := mem_roots ho
            refine ih hnode hr (List.mem_of_getElem? hd) ?_ 0
            rw [get?_instancePlace root c place slot position hplace]
            exact instance?_eq_some hr hd

/-- What a walk from a start goes through, or the fault that it begins with. -/
def begins (c : Component) (place : Place) : Start → Except Fault (List Outline)
  | .root => .ok (c.roots place)
  | .childrenOf index =>
    match c.tree[index]? with
    | none => .error .indexOutOfRange
    | some (.dynamic _) => .error (.dynamicStart index)
    | some (.item _ first count) =>
      .ok ((List.range' first.toNat count.toNat).map (c.outlineAt place))

theorem begins_root (c : Component) (place : Place) : c.begins place .root = .ok (c.roots place) :=
  rfl

theorem begins_childrenOf {index slot : Nat} {first count : UInt32} (place : Place)
    (h : c.tree[index]? = some (.item slot first count)) :
    c.begins place (.childrenOf index) =
      .ok ((List.range' first.toNat count.toNat).map (c.outlineAt place)) := by
  simp only [begins, h]

theorem begins_located {start : Start} {os : List Outline} (hplace : root.get? place = some c)
    (h : c.Throughout Forward) (hos : c.begins place start = .ok os) :
    ∀ o ∈ os, o.All (Outline.Located root) := by
  intro o ho
  cases start with
  | root =>
    obtain rfl := Except.ok.inj hos
    obtain ⟨-, rfl⟩ := mem_roots ho
    exact all_located hplace h 0
  | childrenOf index =>
    rw [begins] at hos
    split at hos
    · cases hos
    · cases hos
    · obtain rfl := Except.ok.inj hos
      obtain ⟨child, -, rfl⟩ := List.mem_map.mp ho
      exact all_located hplace h child

theorem begins_whole {start : Start} {os : List Outline} (h : c.Throughout Founded)
    (hos : c.begins place start = .ok os) : ∀ o ∈ os, o.Whole := by
  cases start with
  | root =>
    obtain rfl := Except.ok.inj hos
    exact whole_roots h place
  | childrenOf index =>
    rw [begins] at hos
    split at hos
    · cases hos
    · cases hos
    · rename_i slot first count hnode
      obtain rfl := Except.ok.inj hos
      intro o ho
      obtain ⟨child, hchild, rfl⟩ := List.mem_map.mp ho
      rw [List.mem_range'_1] at hchild
      have hinside := h.here.inside hnode fun hzero => by
        subst hzero
        simp at hchild
        omega
      exact whole_outlineAt h place child (Nat.lt_of_lt_of_le hchild.2 hinside)

end Component

namespace Walk

variable {root c : Component} {place : Place} {visitor : Visitor μ} {depth : Nat}

theorem node?_of_frames {w : Walk μ} (hplace : root.get? place = some c)
    (hw : w.scene.root.frames = root.frames) (index : Nat) :
    w.node? place index = c.tree[index]? := by
  have hframe := congrFun hw place
  rw [Component.frames, Component.frames, hplace] at hframe
  obtain ⟨d, hd, hsame⟩ := Option.map_eq_some_iff.mp hframe
  have htree : d.tree = c.tree := congrArg Frame.tree hsame
  rw [node?, component?, hd, Option.bind_some, htree]

theorem follows_start {start : Start} {os : List Outline} (hplace : root.get? place = some c)
    (hc : c.Throughout Component.Forward) (leaves : visitor.LeavesRepeaters)
    (hdepth : c.size ≤ depth) (hos : c.begins place start = .ok os) :
    Follows root.frames os fun w => w.start (tracedNode visitor depth) place start := by
  have hpos : 0 < depth := by
    have := c.size_eq
    omega
  have nodes : ∀ index, Follows root.frames [c.outlineAt place index]
      (tracedNode visitor depth place index) := fun index =>
    follows_tracedNode leaves hplace hc (Nat.le_add_right_of_le hdepth) hpos
  cases start with
  | root =>
    obtain rfl := Except.ok.inj hos
    exact follows_fromRoot hplace fun _ => nodes 0
  | childrenOf index =>
    intro w hw
    have hnode := node?_of_frames hplace hw index
    rw [Component.begins] at hos
    split at hos
    · cases hos
    · cases hos
    · rename_i slot first count hn
      obtain rfl := Except.ok.inj hos
      simp only [Walk.start, below, hnode.trans hn]
      exact follows_children (hc.here.fits hn) (fun child _ _ => nodes child) w hw

/-- Nothing happens but that the walk ends in a fault. -/
def Refuses (frames : Place → Option Frame) (fault : Fault) (steps : Walk μ → Outcome μ) : Prop :=
  ∀ w, w.scene.root.frames = frames →
    (steps w).ending = .fault fault ∧ (steps w).walk.memory = w.memory

theorem refuses_owners {frames : Place → Option Frame} {fault : Fault}
    {steps : Walk μ → Outcome μ} (h : Refuses frames fault steps)
    (owners : List RepeaterAddress) : Refuses frames fault (owners.foldr holding steps) := by
  induction owners with
  | nil => exact h
  | cons a rest ih => exact fun w hw => ih (w.hold a) ((frames_hold w a).trans hw)

theorem refuses_start {start : Start} {fault : Fault}
    {enter : Place → Nat → Walk μ → Outcome μ} (hplace : root.get? place = some c)
    (h : c.begins place start = .error fault) :
    Refuses root.frames fault fun w => w.start enter place start := by
  intro w hw
  cases start with
  | root => cases h
  | childrenOf index =>
    have hnode := node?_of_frames hplace hw index
    rw [Component.begins] at h
    split at h
    · rename_i hn
      cases h
      simp only [Walk.start, below, hnode.trans hn]
      exact ⟨rfl, rfl⟩
    · rename_i slot hn
      cases h
      simp only [Walk.start, below, hnode.trans hn]
      exact ⟨rfl, rfl⟩
    · cases h

end Walk

namespace Scene

variable {s : Scene} {place : Place} {c : Component} {visitor : Visitor μ} {depth : Nat}
  {start : Start}

/-- The walk from a start goes through what it begins with. -/
theorem trace_begins {os : List Outline} (memory : μ) (hplace : s.root.get? place = some c)
    (hc : c.Throughout Component.Forward) (leaves : visitor.LeavesRepeaters)
    (hdepth : c.size ≤ depth) (hos : c.begins place start = .ok os) :
    Course os (s.trace visitor depth place start memory).events
      (s.trace visitor depth place start memory).ending := by
  obtain ⟨events, -, hevents, hcourse⟩ := Walk.follows_owners
    (Walk.follows_start hplace hc leaves hdepth hos) (Place.owners place) ⟨s, memory, []⟩ rfl
  have hall : (s.trace visitor depth place start memory).events = events := by
    rw [Walk.Outcome.events, trace, walkBy, hevents]
    simp
  rw [hall]
  exact hcourse

theorem trace_refused {fault : Fault} (visitor : Visitor μ) (depth : Nat) (memory : μ)
    (hplace : s.root.get? place = some c) (h : c.begins place start = .error fault) :
    (s.trace visitor depth place start memory).ending = .fault fault ∧
      (s.trace visitor depth place start memory).events = [] := by
  have hstart : Walk.Refuses s.root.frames fault fun w =>
      w.start (Walk.tracedNode visitor depth) place start := Walk.refuses_start hplace h
  obtain ⟨hending, hmemory⟩ :=
    Walk.refuses_owners hstart (Place.owners place) ⟨s, memory, []⟩ rfl
  refine ⟨hending, ?_⟩
  rw [Walk.Outcome.events, trace, walkBy, hmemory]
  rfl

end Scene

end RetainedScene
