import RetainedScene.Proofs.Scene.Everywhere
import RetainedScene.Proofs.Scene.Coverage
import RetainedScene.Proofs.Scene.InUse
import RetainedScene.Proofs.Scene.Tour

/-!
# Walks are tours

The walk of a scene whose trees are without cycles, with a visitor that always goes on, is the tour
of it. While a node is walked, the way to it stays, so that a tour can go by the components as they
were when they were entered.
-/

set_option autoImplicit false

namespace RetainedScene

variable {μ : Type}

def Visitor.Builds (P : Component → Prop) (visitor : Visitor μ) : Prop :=
  ∀ memory s sight, ∀ edit ∈ (visitor memory s sight).edits, edit.Builds P

namespace Walk

structure Ready (chain : List RepeaterAddress) (w : Walk μ) : Prop where
  borrowed : w.scene.root.Borrowed chain
  founded : w.scene.root.Everywhere Component.Founded

/-- A walk that is ready stays ready, and all on the way stays. -/
structure Stays (chain : List RepeaterAddress) (w : Walk μ) (o : Outcome μ) : Prop where
  ready : Ready chain o.walk
  keeps : w.scene.root.Keeps o.walk.scene.root chain
  outward : o.walk.scene.root.outward = w.scene.root.outward

section

variable {w : Walk μ} {a : RepeaterAddress} {chain : List RepeaterAddress}

theorem holdings_hold (w : Walk μ) (a : RepeaterAddress) :
    (w.hold a).scene.root.holdings = w.scene.root.holdings :=
  funext fun b => w.scene.root.holdings_modifyWalks a b (· + 1)

theorem holdings_release (w : Walk μ) (a : RepeaterAddress) :
    (w.release a).scene.root.holdings = w.scene.root.holdings :=
  funext fun b => w.scene.root.holdings_modifyWalks a b (· - 1)

theorem outward_hold (w : Walk μ) (a : RepeaterAddress) :
    (w.hold a).scene.root.outward = w.scene.root.outward :=
  congrArg Trunk.unplaced (w.scene.root.trunk_modifyRepeaterAt a _)

theorem outward_release (w : Walk μ) (a : RepeaterAddress) :
    (w.release a).scene.root.outward = w.scene.root.outward :=
  congrArg Trunk.unplaced (w.scene.root.trunk_modifyRepeaterAt a _)

theorem Ready.hold (h : Ready chain w) (a : RepeaterAddress) : Ready (chain ++ [a]) (w.hold a) where
  borrowed := h.borrowed.hold a
  founded := h.founded.of_holdings Component.outward_founded (congrFun (holdings_hold w a))
    (outward_hold w a)

theorem Ready.release (h : Ready (chain ++ [a]) w) : Ready chain (w.release a) where
  borrowed := h.borrowed.release
  founded := h.founded.of_holdings Component.outward_founded (congrFun (holdings_release w a))
    (outward_release w a)

end

theorem steady_stays :
    Steady fun chain (w : Walk μ) o => Ready chain w → Stays chain w o where
  stop _ _ _ h := ⟨h, fun _ _ => rfl, rfl⟩
  trans h _ h' hw := by
    have first := h hw
    have later := h' first.ready
    exact ⟨later.ready, first.keeps.trans later.keeps, later.outward.trans first.outward⟩
  held {a w o} h hw := by
    have inner := h (hw.hold a)
    refine ⟨inner.ready.release, fun b hb => ?_, ?_⟩
    · rw [holdings_release, inner.keeps b (List.mem_append_left _ hb), holdings_hold]
    · rw [outward_release, inner.outward, outward_hold]

theorem presents_stays {visitor : Visitor μ} (builds : visitor.Builds Component.Founded) :
    Presents (fun chain w o => Ready chain w → Stays chain w o) visitor := by
  intro w sight _ hw
  obtain ⟨hborrowed, hkeeps, houtward⟩ :=
    Scene.applyAll_onWay (visitor w.memory w.scene sight).edits hw.borrowed
  have hfounded := Scene.everywhere_applyAll Component.outward_founded
    (visitor w.memory w.scene sight).edits (builds w.memory w.scene sight) hw.founded
  rw [← scene_shown] at hborrowed hkeeps houtward hfounded
  exact ⟨⟨hborrowed, hfounded⟩, hkeeps, houtward⟩

/-- The component of a stop is in the scene as it was found. -/
def Holds (w : Walk μ) (stop : Stop) : Prop :=
  (w.scene.root.get? stop.place).map Component.outward = some stop.trunk

theorem Holds.of_stays {w : Walk μ} {o : Outcome μ} {stop : Stop}
    (h : Stays (Place.owners stop.place) w o) (hw : w.Holds stop) : o.walk.Holds stop :=
  (h.keeps.outward_eq h.outward).trans hw

theorem Holds.of_holdings {w w' : Walk μ} {stop : Stop}
    (h : w'.scene.root.holdings = w.scene.root.holdings)
    (hroot : w'.scene.root.outward = w.scene.root.outward) (hw : w.Holds stop) : w'.Holds stop :=
  (Component.Keeps.outward_eq (fun a _ => congrFun h a) hroot).trans hw

theorem Holds.component {w : Walk μ} {stop : Stop} (h : w.Holds stop) :
    ∃ c, w.scene.root.get? stop.place = some c ∧ c.outward = stop.trunk ∧
      c.tree = stop.trunk.tree := by
  obtain ⟨c, hc, houtward⟩ := Option.map_eq_some_iff.mp h
  exact ⟨c, hc, houtward, congrArg Trunk.tree houtward⟩

theorem Holds.node?_eq {w : Walk μ} {stop : Stop} (h : w.Holds stop) :
    w.node? stop.place stop.index = stop.node? := by
  obtain ⟨c, hc, -, htree⟩ := h.component
  rw [node?, component?, hc, Option.bind_some, Stop.node?, htree]

/-- The item of a stop may have been moved since its component was found. -/
theorem Holds.item {w : Walk μ} {stop : Stop} {chain : List RepeaterAddress} {slot : Nat}
    {first count : UInt32} (h : w.Holds stop) (hw : Ready chain w)
    (hnode : stop.node? = some (.item slot first count)) :
    ∃ item, w.scene.root.item? stop.place slot = some item ∧
      stop.trunk.items[slot]? = some (item.withGeometry .zero) := by
  obtain ⟨c, hc, houtward, htree⟩ := h.component
  have hcnode : c.tree[stop.index]? = some (.item slot first count) := by rw [htree]; exact hnode
  have hlt := (hw.founded stop.place c hc).item hcnode
  refine ⟨c.items[slot], ?_, ?_⟩
  · rw [Component.item?, hc]
    exact List.getElem?_eq_getElem hlt
  · rw [← houtward, Component.outward, Trunk.unplaced, Component.trunk, List.getElem?_map,
      List.getElem?_eq_getElem hlt, Option.map_some]

/-- What comes of a walk is a tour, and where it goes too deep a component is too large. -/
structure Toured (depth : Nat) (stops : List Stop) (w : Walk (Recorded μ))
    (o : Outcome (Recorded μ)) (turns : List Turn) : Prop where
  memory : o.walk.memory.turns = turns.reverse ++ w.memory.turns
  tour : Tour w.scene.root.holdings stops turns o.ending o.walk.scene.root.holdings
  ends : (∀ turn ∈ turns, turn.fault? = none) → o.ending = .completed ∨
    o.ending = .fault .tooDeep ∧ ∃ stop ∈ stops, ∃ c,
      o.walk.scene.root.get? stop.place = some c ∧ depth + stop.index < c.size

def Tours (chain : List RepeaterAddress) (depth : Nat) (stops : List Stop)
    (steps : Walk (Recorded μ) → Outcome (Recorded μ)) : Prop :=
  ∀ w, Ready chain w → (∀ stop ∈ stops, w.Holds stop) →
    ∃ turns, Toured depth stops w (steps w) turns

section

variable {chain : List RepeaterAddress} {depth : Nat} {stops : List Stop}

theorem tours_completed : Tours (μ := μ) chain depth [] (·.stop .completed) :=
  fun _ _ _ => ⟨[], rfl, .done, fun _ => .inl rfl⟩

theorem Toured.append {stop : Stop} {rest : List Stop} {w : Walk (Recorded μ)}
    {o o' : Outcome (Recorded μ)} {turns turns' : List Turn} (h : Toured depth [stop] w o turns)
    (hending : o.ending = .completed) (h' : Toured depth rest o.walk o' turns') :
    Toured depth (stop :: rest) w o' (turns ++ turns') where
  memory := by rw [h'.memory, h.memory, List.reverse_append, List.append_assoc]
  tour := (hending ▸ h.tour).append h'.tour
  ends heffective := by
    rcases h'.ends fun turn hturn => heffective turn (List.mem_append_right _ hturn) with
      hcompleted | ⟨hdeep, stop', hmem, hsize⟩
    · exact .inl hcompleted
    · exact .inr ⟨hdeep, stop', List.mem_cons_of_mem _ hmem, hsize⟩

theorem Toured.stopped {stop : Stop} {w : Walk (Recorded μ)} {o : Outcome (Recorded μ)}
    {turns : List Turn} (h : Toured depth [stop] w o turns) (hending : o.ending ≠ .completed)
    (rest : List Stop) : Toured depth (stop :: rest) w o turns where
  memory := h.memory
  tour := h.tour.append_stopped hending rest
  ends heffective := by
    rcases h.ends heffective with hcompleted | ⟨hdeep, stop', hmem, hsize⟩
    · exact .inl hcompleted
    · obtain rfl := List.mem_singleton.mp hmem
      exact .inr ⟨hdeep, stop', List.mem_cons_self, hsize⟩

theorem tours_each {step : Nat → Walk (Recorded μ) → Outcome (Recorded μ)}
    (hplace : ∀ stop ∈ stops, Place.owners stop.place = chain)
    (stays : ∀ index, Respects (fun w o => Ready chain w → Stays chain w o) (step index))
    (first : Nat)
    (h : ∀ k stop, stops[k]? = some stop → Tours chain depth [stop] (step (first + k))) :
    Tours chain depth stops (each step stops.length first) := by
  induction stops generalizing first with
  | nil => exact tours_completed
  | cons stop rest ih =>
    intro w hw hholds
    obtain ⟨turns, hfirst⟩ := h 0 stop rfl w hw fun stop' hmem =>
      hholds stop' (List.mem_singleton.mp hmem ▸ List.mem_cons_self)
    rw [List.length_cons, each]
    cases hending : (step first w).ending with
    | completed =>
      have hstays := stays first w hw
      have later := ih (fun stop hmem => hplace stop (List.mem_cons_of_mem _ hmem)) (first + 1)
        fun k stop hk => by
          rw [Nat.add_assoc, Nat.add_comm 1 k]
          exact h (k + 1) stop hk
      obtain ⟨turns', hrest⟩ := later (step first w).walk hstays.ready fun stop hmem =>
        Holds.of_stays (hplace stop (List.mem_cons_of_mem _ hmem) ▸ hstays)
          (hholds stop (List.mem_cons_of_mem _ hmem))
      exact ⟨turns ++ turns', hfirst.append hending hrest⟩
    | aborted =>
      have hne : (step first w).ending ≠ .completed := by simp [hending]
      exact ⟨turns, hfirst.stopped hne rest⟩
    | fault fault =>
      have hne : (step first w).ending ≠ .completed := by simp [hending]
      exact ⟨turns, hfirst.stopped hne rest⟩

theorem tours_holding {a : RepeaterAddress}
    {steps : Walk (Recorded μ) → Outcome (Recorded μ)} {w : Walk (Recorded μ)} {turns : List Turn}
    (h : Toured depth stops (w.hold a) (steps (w.hold a)) turns) :
    Toured depth stops w (holding a steps w) turns where
  memory := h.memory
  tour := by
    have htour := h.tour
    rw [holdings_hold, ← holdings_release (steps (w.hold a)).walk a] at htour
    exact htour
  ends heffective := by
    rcases h.ends heffective with hcompleted | ⟨hdeep, stop, hmem, c, hc, hsize⟩
    · exact .inl hcompleted
    · have hsizes := congrFun ((steps (w.hold a)).walk.scene.root.sizes_modifyWalks a (· - 1))
        stop.place
      rw [Component.sizes, Component.sizes, hc] at hsizes
      obtain ⟨d, hd, heq⟩ := Option.map_eq_some_iff.mp hsizes
      exact .inr ⟨hdeep, stop, hmem, d, hd, heq ▸ hsize⟩

variable {enter : Place → Nat → Walk (Recorded μ) → Outcome (Recorded μ)}

theorem tours_fromRoot {place : Place} {trunk : Trunk}
    (h : 0 < trunk.tree.length → Tours chain depth [⟨place, trunk, 0⟩] (enter place 0)) :
    Tours chain depth [⟨place, trunk, 0⟩] (fromRoot enter place) := by
  intro w hw hholds
  obtain ⟨c, hc, -, htree⟩ := (hholds _ List.mem_cons_self).component
  simp only [fromRoot, component?, hc, htree]
  cases hnodes : trunk.tree with
  | nil => exact ⟨[], rfl, .blank hnodes .done, fun _ => .inl rfl⟩
  | cons node rest => exact h (by simp [hnodes]) w hw hholds

variable (stays : ∀ place index, Respects
    (fun w o => Ready (Place.owners place) w → Stays (Place.owners place) w o) (enter place index))
  (h : ∀ stop : Stop, stop.index < stop.trunk.tree.length →
    Tours (Place.owners stop.place) depth [stop] (enter stop.place stop.index))

include stays h

theorem tours_instances {a : RepeaterAddress} {instances : List Trunk} {w : Walk (Recorded μ)}
    (hw : Ready (Place.owners a.owner) w) (hentry : w.scene.root.holdings a = some instances) :
    ∃ turns, Toured depth (a.stops instances) w (Walk.instances enter a w) turns := by
  have hstop : ∀ stop ∈ a.stops instances, ∃ position trunk,
      instances[position]? = some trunk ∧ stop = ⟨a.instancePlace position, trunk, 0⟩ := by
    intro stop hmem
    obtain ⟨position, hposition, rfl⟩ := List.mem_mapIdx.mp hmem
    exact ⟨position, instances[position], List.getElem?_eq_getElem hposition, rfl⟩
  obtain ⟨r, hr, hshown⟩ : ∃ r, w.scene.root.repeater? a = some r ∧
      (r.instances.map Component.trunk).map Trunk.unplaced = instances := by
    rw [Component.holdings, Component.content, Option.map_map] at hentry
    exact Option.map_eq_some_iff.mp hentry
  have hlength : r.length = (a.stops instances).length := by
    rw [RepeaterAddress.stops, List.length_mapIdx, ← hshown, List.length_map, List.length_map,
      Repeater.length]
  have inside : Tours (Place.owners a.owner ++ [a]) depth (a.stops instances)
      (each (fun position => fromRoot enter (a.instancePlace position)) r.length 0) := by
    rw [hlength]
    refine tours_each (fun stop hmem => ?_) (fun position => ?_) 0 fun k stop hk => ?_
    · obtain ⟨position, trunk, -, rfl⟩ := hstop stop hmem
      exact Place.owners_instancePlace a position
    · rw [← Place.owners_instancePlace a position]
      exact respects_fromRoot stays steady_stays (a.instancePlace position)
    · rw [RepeaterAddress.stops, List.getElem?_mapIdx] at hk
      obtain ⟨trunk, -, rfl⟩ := Option.map_eq_some_iff.mp hk
      rw [Nat.zero_add, ← Place.owners_instancePlace a k]
      exact tours_fromRoot (h ⟨a.instancePlace k, trunk, 0⟩)
  simp only [Walk.instances, hr]
  obtain ⟨turns, htoured⟩ := inside (w.hold a) (hw.hold a) fun stop hmem => by
    obtain ⟨position, trunk, htrunk, rfl⟩ := hstop stop hmem
    rw [Holds, Component.outward_instancePlace, holdings_hold, hentry]
    exact htrunk
  exact ⟨turns, tours_holding htoured⟩

theorem tours_children {stop : Stop} {slot : Nat} {first count : UInt32}
    (hnode : stop.node? = some (.item slot first count))
    (hfits : first.toNat + count.toNat < UInt32.size)
    (hinside : count ≠ 0 → first.toNat + count.toNat ≤ stop.trunk.tree.length) :
    Tours (Place.owners stop.place) depth stop.below
      (children (enter stop.place) first count) := by
  have hbelow : stop.below = (List.range' first.toNat count.toNat).map
      fun child => { stop with index := child } := by
    rw [Stop.below, hnode]
    rfl
  have hlength : count.toNat = stop.below.length := by
    rw [hbelow, List.length_map, List.length_range']
  have hsteps : Tours (Place.owners stop.place) depth stop.below
      (each (enter stop.place) count.toNat first.toNat) := by
    rw [hlength]
    refine tours_each (fun child hmem => ?_) (stays stop.place) first.toNat fun k child hk => ?_
    · rw [hbelow] at hmem
      obtain ⟨index, -, rfl⟩ := List.mem_map.mp hmem
      rfl
    · rw [hbelow, List.getElem?_map] at hk
      obtain ⟨index, hindex, rfl⟩ := Option.map_eq_some_iff.mp hk
      obtain ⟨hlt, rfl⟩ := List.getElem?_eq_some_iff.mp hindex
      have hk : k < count.toNat := by simpa using hlt
      rw [List.getElem_range', Nat.one_mul]
      refine h { stop with index := first.toNat + k } ?_
      have hcount : count ≠ 0 := by
        rintro rfl
        exact Nat.not_lt_zero _ hk
      have := hinside hcount
      exact Nat.lt_of_lt_of_le (Nat.add_lt_add_left hk _) this
  intro w hw hholds
  rw [children, if_neg (Nat.not_le.mpr hfits)]
  exact hsteps w hw hholds

end

section

variable {depth : Nat} {stop : Stop} {slot : Nat} {w : Walk (Recorded μ)}
  {o : Outcome (Recorded μ)} {turns : List Turn}

/-- The tour of the instances is that of the dynamic node, which lies one node above them. -/
theorem Toured.dynamic {instances : List Trunk} (hnode : stop.node? = some (.dynamic slot))
    (hholds : o.walk.Holds stop)
    (hentry : w.scene.root.holdings ⟨stop.place, slot⟩ = some instances)
    (h : Toured depth (RepeaterAddress.stops ⟨stop.place, slot⟩ instances) w o turns) :
    Toured (depth + 1) [stop] w o turns where
  memory := h.memory
  tour := .dynamic hnode hentry ((List.append_nil _).symm ▸ h.tour)
  ends heffective := by
    rcases h.ends heffective with hcompleted | ⟨hdeep, inner, hmem, d, hd, hsize⟩
    · exact .inl hcompleted
    · right
      obtain ⟨c, hc, -, htree⟩ := hholds.component
      have hindex : stop.index < stop.trunk.tree.length := (List.getElem?_eq_some_iff.mp hnode).1
      obtain ⟨position, hposition, rfl⟩ := List.mem_mapIdx.mp hmem
      rw [Component.get?_instancePlace _ c _ _ _ hc, Component.instance?] at hd
      cases hr : c.repeaters[slot]? with
      | none => simp [hr] at hd
      | some r =>
        simp only [hr] at hd
        have := Component.size_instance hr (List.mem_of_getElem? hd)
        simp only [Nat.add_zero] at hsize
        refine ⟨hdeep, stop, List.mem_cons_self, c, hc, ?_⟩
        rw [← htree] at hindex
        omega

/-- The item is shown first, and then the tour goes on below it, one node deeper. -/
theorem Toured.item {first count : UInt32} {turn : Turn} {w' : Walk (Recorded μ)}
    (hnode : stop.node? = some (.item slot first count))
    (hafter : count ≠ 0 → stop.index < first.toNat) (shown : turn.At stop slot)
    (now : turn.scene = w.scene) (effective : turn.fault? = none)
    (hmemory : w'.memory.turns = turn :: w.memory.turns) (hscene : w'.scene = turn.after)
    (h : Toured depth stop.below w' o turns) :
    Toured (depth + 1) [stop] w o (turn :: turns) where
  memory := by rw [h.memory, hmemory, List.reverse_cons, List.append_assoc, List.singleton_append]
  tour := by
    refine .item hnode shown (by rw [now]) effective ?_
    rw [List.append_nil, ← hscene]
    exact h.tour
  ends heffective := by
    rcases h.ends (fun turn hturn => heffective turn (List.mem_cons_of_mem _ hturn)) with
      hcompleted | ⟨hdeep, child, hmem, c, hc, hsize⟩
    · exact .inl hcompleted
    · right
      rw [Stop.below, hnode, Option.elim_some, Node.children] at hmem
      obtain ⟨index, hindex, rfl⟩ := List.mem_map.mp hmem
      rw [List.mem_range'_1] at hindex
      have hcount : count ≠ 0 := by
        rintro rfl
        simp at hindex
        omega
      have := hafter hcount
      refine ⟨hdeep, stop, List.mem_cons_self, c, hc, ?_⟩
      dsimp only at hsize
      omega

end

section

variable {visitor : Visitor μ} {enter : Place → Nat → Walk (Recorded μ) → Outcome (Recorded μ)}
  {depth : Nat} {stop : Stop} {slot : Nat}
  (stays : ∀ place index, Respects
    (fun w o => Ready (Place.owners place) w → Stays (Place.owners place) w o) (enter place index))
  (h : ∀ stop : Stop, stop.index < stop.trunk.tree.length →
    Tours (Place.owners stop.place) depth [stop] (enter stop.place stop.index))

include stays h

theorem tours_dynamic (hnode : stop.node? = some (.dynamic slot)) :
    Tours (Place.owners stop.place) (depth + 1) [stop]
      (visit visitor.recorded enter stop.place stop.index) := by
  intro w hw hholds
  have hstop := hholds stop List.mem_cons_self
  obtain ⟨c, hc, -, htree⟩ := hstop.component
  have hcnode : c.tree[stop.index]? = some (.dynamic slot) := by rw [htree]; exact hnode
  obtain ⟨r, hr⟩ : ∃ r, c.repeaters[slot]? = some r :=
    ⟨_, List.getElem?_eq_getElem ((hw.founded stop.place c hc).repeater hcnode)⟩
  have hentry : w.scene.root.holdings ⟨stop.place, slot⟩ =
      some ((r.instances.map Component.trunk).map Trunk.unplaced) := by
    rw [Component.holdings, Component.content, Component.repeater?_eq_bind, hc,
      Option.bind_some, hr]
    rfl
  obtain ⟨turns, htoured⟩ := tours_instances stays h (a := ⟨stop.place, slot⟩) hw hentry
  have hafter := respects_instances stays steady_stays ⟨stop.place, slot⟩ w hw
  rw [visit_dynamic (hstop.node?_eq.trans hnode)]
  exact ⟨turns, htoured.dynamic hnode (hstop.of_stays hafter) hentry⟩

theorem tours_item (builds : visitor.recorded.Builds Component.Founded)
    (descends : visitor.Descends) {first count : UInt32}
    (hnode : stop.node? = some (.item slot first count)) :
    Tours (Place.owners stop.place) (depth + 1) [stop]
      (visit visitor.recorded enter stop.place stop.index) := by
  intro w hw hholds
  have hstop := hholds stop List.mem_cons_self
  obtain ⟨c, hc, -, htree⟩ := hstop.component
  have founded : c.Founded := hw.founded stop.place c hc
  have hcnode : c.tree[stop.index]? = some (.item slot first count) := by rw [htree]; exact hnode
  obtain ⟨item, hitem, hkept⟩ := hstop.item hw hnode
  let sight : Sight := ⟨stop.place, stop.index, slot, item⟩
  let turn : Turn := ⟨w.scene, sight, (visitor w.memory.memory w.scene sight).edits⟩
  have shown : turn.At stop slot := ⟨rfl, rfl, rfl, hkept, hitem⟩
  rw [visit_item (hstop.node?_eq.trans hnode) hitem, offer, present_eq]
  cases hfault : turn.fault? with
  | some fault =>
    have hrefused : (w.scene.applyAll (visitor.recorded w.memory w.scene sight).edits).2 =
      some fault := hfault
    rw [hrefused]
    refine ⟨[turn], rfl, .refused hnode shown rfl hfault, fun heffective => ?_⟩
    rw [heffective turn List.mem_cons_self] at hfault
    cases hfault
  | none =>
    have heffective : (w.scene.applyAll (visitor.recorded w.memory w.scene sight).edits).2 =
      none := hfault
    have haction : (visitor.recorded w.memory w.scene sight).action = .descend :=
      descends w.memory.memory w.scene sight
    rw [heffective, haction]
    have hshown := presents_stays builds w sight hitem hw
    have hwalk := walk_shown visitor.recorded w sight
    rw [present_eq] at hwalk
    obtain ⟨turns, htoured⟩ := tours_children stays h hnode (founded.fits hcnode)
      (fun hcount => htree ▸ founded.inside hcnode hcount) _ (hwalk ▸ hshown.ready)
      fun child hmem => by
        rw [← hwalk]
        obtain ⟨index, -, rfl⟩ := List.mem_map.mp hmem
        exact Holds.of_stays hshown hstop
    exact ⟨turn :: turns, htoured.item hnode (founded.after hcnode) shown rfl hfault rfl rfl⟩

end

theorem tours_node {visitor : Visitor μ} (builds : visitor.Builds Component.Founded)
    (descends : visitor.Descends) (depth : Nat) (stop : Stop)
    (hindex : stop.index < stop.trunk.tree.length) :
    Tours (Place.owners stop.place) depth [stop]
      (node visitor.recorded depth stop.place stop.index) := by
  have recordedBuilds : visitor.recorded.Builds Component.Founded :=
    fun recorded s sight => builds recorded.memory s sight
  induction depth generalizing stop with
  | zero =>
    intro w _ hholds
    obtain ⟨c, hc, -, htree⟩ := (hholds stop List.mem_cons_self).component
    refine ⟨[], rfl, .tooDeep, fun _ => .inr ⟨rfl, stop, List.mem_cons_self, c, hc, ?_⟩⟩
    rw [c.size_eq, htree]
    omega
  | succ depth ih =>
    have stays := respects_node steady_stays (presents_stays recordedBuilds) depth
    have hnode : stop.node? = some stop.trunk.tree[stop.index] := List.getElem?_eq_getElem hindex
    cases htree : stop.trunk.tree[stop.index] with
    | dynamic slot => exact tours_dynamic stays ih (htree ▸ hnode)
    | item slot first count => exact tours_item stays ih recordedBuilds descends (htree ▸ hnode)

end Walk

end RetainedScene
