import RetainedScene.Proofs.Scene.TourWalk

/-!
# Changes during a walk

A visitor that always goes on may fill any repeater that is not being walked. What the walk shows is
the tour of the scene: each dynamic node stands for what its repeater holds when the walk enters it.
Outside of the repeaters that are filled, the walk shows what it would show without any change.
-/

set_option autoImplicit false

namespace RetainedScene

variable {μ : Type}

/-- The nodes that a walk starts with. -/
def Source.stops? (root : Component) : Source → Option (List Stop)
  | .component place .root => (root.get? place).map fun c => [⟨place, c.outward, 0⟩]
  | .component place (.childrenOf index) => (root.get? place).bind fun c =>
    match c.tree[index]? with
    | some (.item _ _ _) => some (Stop.below ⟨place, c.outward, index⟩)
    | _ => none
  | .repeater a => (root.holdings a).map a.stops

/-- What an edit is about is there, and is not being walked. -/
def Edit.Free (s : Scene) (place : Place) : Edit → Prop
  | .update a _ => (s.root.repeater? a).isSome ∧ a ∉ Place.owners place
  | .clear a => (s.root.repeater? a).isSome ∧ a ∉ Place.owners place
  | .setHost _ => True
  | .setGeometry owner slot _ => (s.root.item? owner slot).isSome

instance (s : Scene) (place : Place) : (edit : Edit) → Decidable (edit.Free s place)
  | .update _ _ => inferInstanceAs (Decidable (_ ∧ _))
  | .clear _ => inferInstanceAs (Decidable (_ ∧ _))
  | .setHost _ => inferInstanceAs (Decidable True)
  | .setGeometry _ _ _ => inferInstanceAs (Decidable (_ = true))

/-- Each of some edits is free when its turn comes. -/
def Scene.Frees (place : Place) : Scene → List Edit → Prop
  | _, [] => True
  | s, edit :: rest => edit.Free s place ∧
    match s.apply edit with
    | .ok t => Frees place t rest
    | .error _ => True

instance Scene.decidableFrees (place : Place) :
    (s : Scene) → (edits : List Edit) → Decidable (s.Frees place edits)
  | _, [] => inferInstanceAs (Decidable True)
  | s, edit :: rest =>
    match h : s.apply edit with
    | .ok t =>
      have := decidableFrees place t rest
      decidable_of_iff (edit.Free s place ∧ t.Frees place rest) (by rw [Frees, h])
    | .error _ => decidable_of_iff (edit.Free s place) (by rw [Frees, h, and_true])

def Turn.Free (turn : Turn) : Prop :=
  turn.scene.Frees turn.sight.place turn.edits

instance (turn : Turn) : Decidable turn.Free :=
  inferInstanceAs (Decidable (turn.scene.Frees turn.sight.place turn.edits))

namespace Scene

theorem apply_of_free {s : Scene} {place : Place} {edit : Edit}
    (hs : s.root.Borrowed (Place.owners place)) (h : edit.Free s place) :
    ∃ t, s.apply edit = .ok t := by
  have refills : ∀ a instances, edit.refill? s.host = some (a, instances) →
      (s.root.repeater? a).isSome ∧ a ∉ Place.owners place → ∃ t, s.apply edit = .ok t := by
    rintro a instances hrefill ⟨hr, ha⟩
    obtain ⟨r, hr⟩ := Option.isSome_iff_exists.mp hr
    obtain ⟨t, ht, -⟩ := (guardsWay_of_borrowed hs).filled hr hrefill ha
    exact ⟨t, ht⟩
  cases edit with
  | update a feed => exact refills a _ rfl h
  | clear a => exact refills a _ rfl h
  | setHost host => exact ⟨_, rfl⟩
  | setGeometry owner slot geometry =>
    obtain ⟨item, hitem⟩ := Option.isSome_iff_exists.mp h
    rw [apply, hitem]
    exact ⟨_, rfl⟩

/-- Free edits all take effect. -/
theorem fault_of_frees {place : Place} {edits : List Edit} {s : Scene}
    (hs : s.root.Borrowed (Place.owners place)) (h : s.Frees place edits) :
    (s.applyAll edits).2 = none := by
  induction edits generalizing s with
  | nil => rfl
  | cons edit rest ih =>
    obtain ⟨hfree, hrest⟩ := h
    obtain ⟨t, ht⟩ := apply_of_free hs hfree
    rw [ht] at hrest
    rw [applyAll_cons, ht]
    exact ih (apply_onWay ht hs).1 hrest

/-- The walk of a visitor that changes nothing leaves the scene as large as it was. -/
theorem size_record {s : Scene} {visitor : Visitor μ} (idle : ∀ memory t sight,
    (visitor memory t sight).edits = []) (depth : Nat) (source : Source) (memory : μ) :
    (s.record visitor depth source memory).walk.scene.root.size = s.root.size := by
  let R (_ : List RepeaterAddress) (w : Walk (Recorded μ)) (o : Walk.Outcome (Recorded μ)) : Prop :=
    o.walk.scene.root.size = w.scene.root.size
  have steady : Walk.Steady R := by
    refine ⟨fun _ _ _ => rfl, fun h _ h' => h'.trans h, fun {a w o} h => ?_⟩
    have hhold := congrFun (w.scene.root.sizes_modifyWalks a (· + 1)) []
    have hrelease := congrFun (o.walk.scene.root.sizes_modifyWalks a (· - 1)) []
    exact (Option.some.inj hrelease).trans (h.trans (Option.some.inj hhold))
  have presents : Walk.Presents R visitor.recorded := by
    intro w sight _
    have hidle : (visitor.recorded w.memory w.scene sight).edits = [] :=
      idle w.memory.memory w.scene sight
    change (w.shown visitor.recorded sight).walk.scene.root.size = w.scene.root.size
    rw [Walk.scene_shown, hidle]
    rfl
  exact walkFrom_respects steady presents s depth source ⟨memory, []⟩

end Scene

namespace Walk

theorem toured_owners {steps : Walk (Recorded μ) → Outcome (Recorded μ)} {depth : Nat}
    {stops : List Stop} (outer place : Place) (w : Walk (Recorded μ))
    (hw : Ready (Place.owners outer) w)
    (h : ∀ w', Ready (Place.owners (outer ++ place)) w' →
      w'.scene.root.holdings = w.scene.root.holdings →
      w'.scene.root.outward = w.scene.root.outward → ∃ turns, Toured depth stops w' (steps w') turns) :
    ∃ turns, Toured depth stops w ((Place.ownersFrom outer place).foldr holding steps w) turns := by
  induction place generalizing outer w with
  | nil => exact h w ((List.append_nil outer).symm ▸ hw) rfl rfl
  | cons branch rest ih =>
    have hheld := hw.hold ⟨outer, branch.repeater⟩
    rw [← Place.owners_instancePlace ⟨outer, branch.repeater⟩ branch.position] at hheld
    obtain ⟨turns, hinner⟩ := ih (outer ++ [branch]) (w.hold ⟨outer, branch.repeater⟩) hheld
      fun w' hw' hholdings houtward => by
        rw [List.append_assoc] at hw'
        exact h w' hw' (hholdings.trans (holdings_hold w _)) (houtward.trans (outward_hold w _))
    exact ⟨turns, tours_holding hinner⟩

/-- A walk from any source is a tour of the nodes that it starts with. -/
theorem toured_source {visitor : Visitor μ} (builds : visitor.Builds Component.Founded)
    (descends : visitor.Descends) (depth : Nat) {source : Source} {stops : List Stop}
    {w : Walk (Recorded μ)} (hw : Ready [] w) (hstops : source.stops? w.scene.root = some stops) :
    ∃ turns, Toured depth stops w (source.walk (node visitor.recorded depth) w) turns := by
  have recordedBuilds : visitor.recorded.Builds Component.Founded :=
    fun recorded s sight => builds recorded.memory s sight
  have stays := respects_node steady_stays (presents_stays recordedBuilds) depth
  have nodes := tours_node builds descends depth
  cases source with
  | repeater a =>
    obtain ⟨instances, hentry, rfl⟩ := Option.map_eq_some_iff.mp hstops
    refine toured_owners [] a.owner w hw fun w' hw' hholdings _ => ?_
    exact tours_instances stays nodes hw' ((congrFun hholdings a).trans hentry)
  | component place start =>
    cases start with
    | root =>
      obtain ⟨c, hc, rfl⟩ := Option.map_eq_some_iff.mp hstops
      refine toured_owners [] place w hw fun w' hw' hholdings houtward => ?_
      have hholds : w'.Holds ⟨place, c.outward, 0⟩ :=
        Holds.of_holdings hholdings houtward (by rw [Holds, hc, Option.map_some])
      exact tours_fromRoot (nodes ⟨place, c.outward, 0⟩) w' hw' (by simpa using hholds)
    | childrenOf index =>
      obtain ⟨c, hc, hbelow⟩ := Option.bind_eq_some_iff.mp hstops
      cases hnode : c.tree[index]? with
      | none => simp [hnode] at hbelow
      | some node =>
        cases node with
        | dynamic slot => simp [hnode] at hbelow
        | item slot first count =>
          simp only [hnode, Option.some.injEq] at hbelow
          subst hbelow
          refine toured_owners [] place w hw fun w' hw' hholdings houtward => ?_
          have hholds : w'.Holds ⟨place, c.outward, index⟩ :=
            Holds.of_holdings hholdings houtward (by rw [Holds, hc, Option.map_some])
          have hstop : Stop.node? ⟨place, c.outward, index⟩ = some (.item slot first count) := hnode
          obtain ⟨d, hd, -, hsame⟩ := hholds.component
          have htree : d.tree = c.tree := hsame
          have hdnode : d.tree[index]? = some (.item slot first count) := by rw [htree, hnode]
          have founded : d.Founded := hw'.founded place d hd
          have hinside : count ≠ 0 → first.toNat + count.toNat ≤ c.tree.length :=
            fun hcount => htree ▸ founded.inside hdnode hcount
          simp only [Walk.start, Walk.below, hholds.node?_eq.trans hstop]
          refine tours_children stays nodes hstop (founded.fits hdnode) hinside w' hw'
            fun child hmem => ?_
          obtain ⟨index, -, rfl⟩ := List.mem_map.mp hmem
          exact hholds

end Walk

namespace Scene

/-- How a walk shows a scene that its visitor changes. -/
structure ShowsTour (s : Scene) (visitor : Visitor μ) (depth : Nat) (source : Source) (memory : μ)
    (stops : List Stop) : Prop where
  recorded : (s.record visitor depth source memory).withMemory Recorded.memory =
    s.walkFrom visitor depth source memory
  tour : Tour s.root.holdings stops (s.turns visitor depth source memory)
    (s.walkFrom visitor depth source memory).ending
    (s.walkFrom visitor depth source memory).walk.scene.root.holdings
  /-- A depth as large as the scene turns out to be is enough. -/
  ends : (s.walkFrom visitor depth source memory).ending = .completed ∨
    (s.walkFrom visitor depth source memory).ending = .fault .tooDeep ∧
      depth < (s.walkFrom visitor depth source memory).walk.scene.root.size
  elsewhere (touched : List RepeaterAddress) :
    (s.walkFrom visitor depth source memory).ending = .completed → s.root.size ≤ depth →
      (∀ turn ∈ s.turns visitor depth source memory, turn.Touches touched) →
        Place.select touched Mark.place ((s.turns visitor depth source memory).map Turn.mark) =
          Place.select touched Mark.place ((s.turns .recorder depth source []).map Turn.mark)

theorem tour_record {s : Scene} {source : Source} {stops : List Stop} (visitor : Visitor μ)
    (depth : Nat) (memory : μ) (quiet : s.Quiet)
    (founded : s.root.Everywhere Component.Founded) (hstops : source.stops? s.root = some stops)
    (builds : visitor.Builds Component.Founded) (descends : visitor.Descends) :
    Walk.Toured depth stops ⟨s, ⟨memory, []⟩⟩ (s.record visitor depth source memory)
      (s.turns visitor depth source memory) := by
  obtain ⟨turns, htoured⟩ := Walk.toured_source builds descends depth
    (w := ⟨s, ⟨memory, []⟩⟩) ⟨quiet_iff.mp quiet, founded⟩ hstops
  have hturns : s.turns visitor depth source memory = turns := by
    have hmemory : (s.record visitor depth source memory).walk.memory.turns = turns.reverse ++ [] :=
      htoured.memory
    rw [Scene.turns, hmemory, List.append_nil, List.reverse_reverse]
  rw [hturns]
  exact htoured

theorem ends_record {s : Scene} {visitor : Visitor μ} {depth : Nat} {source : Source}
    {memory : μ} {stops : List Stop} (toured : Walk.Toured depth stops ⟨s, ⟨memory, []⟩⟩
      (s.record visitor depth source memory) (s.turns visitor depth source memory))
    (effective : ∀ turn ∈ s.turns visitor depth source memory, turn.fault? = none) :
    (s.record visitor depth source memory).ending = .completed ∨
      (s.record visitor depth source memory).ending = .fault .tooDeep ∧
        depth < (s.record visitor depth source memory).walk.scene.root.size := by
  rcases toured.ends effective with hcompleted | ⟨hdeep, stop, -, c, hc, hsize⟩
  · exact .inl hcompleted
  · have := Component.size_get? hc
    exact .inr ⟨hdeep, by omega⟩

theorem showsTour_of_founded (s : Scene) (visitor : Visitor μ) (depth : Nat) (source : Source)
    (memory : μ) (stops : List Stop) (quiet : s.Quiet)
    (founded : s.root.Everywhere Component.Founded) (hstops : source.stops? s.root = some stops)
    (builds : visitor.Builds Component.Founded) (descends : visitor.Descends)
    (free : ∀ turn ∈ s.turns visitor depth source memory, turn.Free) :
    s.ShowsTour visitor depth source memory stops := by
  have hrecorded := s.record_unrecorded visitor depth source memory
  have hregular := regular_record visitor depth source memory quiet
  have toured := tour_record visitor depth memory quiet founded hstops builds descends
  have effective : ∀ turn ∈ s.turns visitor depth source memory, turn.fault? = none :=
    fun turn hturn =>
      fault_of_frees (hregular.turns turn (List.mem_reverse.mp hturn)).1 (free turn hturn)
  have htour := toured.tour
  have hends := ends_record toured effective
  have hending : (s.walkFrom visitor depth source memory).ending =
      (s.record visitor depth source memory).ending := congrArg Walk.Outcome.ending hrecorded.symm
  have hscene : (s.walkFrom visitor depth source memory).walk.scene =
      (s.record visitor depth source memory).walk.scene :=
    congrArg (fun o => o.walk.scene) hrecorded.symm
  refine ⟨hrecorded, ?_, ?_, fun touched hcompleted hdepth touches => ?_⟩
  · rw [hending, hscene]
    exact htour
  · rw [hending, hscene]
    exact hends
  · -- The walk that changes nothing is a tour of the same nodes.
    have idle : ∀ turn ∈ s.turns .recorder depth source [], turn.edits = [] :=
      forall_turns (fun _ _ _ => rfl) s depth source []
    have still := tour_record .recorder depth [] quiet founded hstops
      (fun _ _ _ _ h => absurd h List.not_mem_nil) (fun _ _ _ => rfl)
    have hstill : (s.record .recorder depth source []).ending = .completed := by
      rcases ends_record still fun turn hturn => by rw [Turn.fault?, idle turn hturn]; rfl with
        h | ⟨-, hsize⟩
      · exact h
      · rw [size_record fun _ _ _ => rfl] at hsize
        omega
    have one := htour.elsewhere (hending ▸ hcompleted) (fun _ _ _ => rfl) touches
    have untouched : ∀ turn ∈ s.turns .recorder depth source [], turn.Touches touched := by
      intro turn hturn edit hedit
      rw [idle turn hturn] at hedit
      exact absurd hedit List.not_mem_nil
    have other := still.tour.elsewhere (h := s.root.holdings) hstill (fun _ _ _ => rfl) untouched
    exact one.unique other

/-- A frame with a row of its own. -/
def shelf : Component where
  index := 0
  items := [.rectangle {}]
  tree := [.item 0 1 1, .dynamic 0]
  repeaters := [{ instances := [row] }]

/-- Two shelves and a footer. -/
def rack : Component where
  index := 0
  items := [.rectangle {}, .rectangle {}]
  tree := [.item 0 1 2, .dynamic 0, .item 1 0 0]
  repeaters := [{ instances := [shelf, { shelf with index := 1 }] }]

/-- Puts two dots on the first shelf and nothing on the second, each before the walk goes there, and
    takes the shelves away after it has left them. -/
def tending : Visitor Nat := fun seen _ _ =>
  let edits := match seen with
    | 1 => [.update ⟨[⟨0, 0⟩], 0⟩ (.dots 2)]
    | 4 => [.clear ⟨[⟨0, 1⟩], 0⟩]
    | 5 => [.update ⟨[], 0⟩ (.dots 1)]
    | _ => []
  ⟨seen + 1, edits, .descend⟩

theorem rack_quiet : (⟨.white, rack⟩ : Scene).Quiet := by
  have hrow : row.Borrowed [] := Component.borrowed_nil (by simp [row])
  have hshelf : ∀ index, ({ shelf with index } : Component).Borrowed [] := fun index =>
    Component.borrowed_nil (by simpa [shelf] using hrow)
  refine quiet_iff.mpr (Component.borrowed_nil ?_)
  simpa [rack] using ⟨hshelf 0, hshelf 1⟩

theorem rack_founded : rack.Everywhere Component.Founded := by
  have hrow : row.Everywhere Component.Founded := .of_all (by decide) (by simp [row])
  have hone : shelf.Everywhere Component.Founded := .of_all (by decide) (by simpa [shelf] using hrow)
  have htwo : ({ shelf with index := 1 } : Component).Everywhere Component.Founded :=
    .of_all (by decide) (by simpa [shelf] using hrow)
  refine .of_all (by decide) ?_
  simpa [rack] using ⟨hone, htwo⟩

theorem dot_founded (host : Color) (index : Nat) :
    (Component.dot host index).Everywhere Component.Founded := by
  refine .of_all ((Component.founded_iff _).mpr fun node => ?_) (by simp [Component.dot])
  obtain ⟨position, hposition⟩ := node
  obtain rfl : position = 0 := Nat.lt_one_iff.mp hposition
  simp [Component.dot, Component.FoundedAt, UInt32.size]

theorem tending_builds : tending.Builds Component.Founded := by
  have dots : ∀ a count, (Edit.update a (.dots count)).Builds Component.Founded := by
    intro a count host b instances hrefill x hx
    obtain ⟨-, rfl⟩ := Prod.mk.inj (Option.some.inj hrefill)
    rw [Blueprint.makeInstances] at hx
    obtain ⟨index, -, rfl⟩ := List.mem_mapIdx.mp hx
    exact dot_founded host index
  have none : ∀ a, (Edit.clear a).Builds Component.Founded := by
    intro a host b instances hrefill x hx
    obtain ⟨-, rfl⟩ := Prod.mk.inj (Option.some.inj hrefill)
    cases hx
  intro seen s sight edit hedit
  simp only [tending] at hedit
  split at hedit
  · exact List.mem_singleton.mp hedit ▸ dots _ _
  · exact List.mem_singleton.mp hedit ▸ none _
  · exact List.mem_singleton.mp hedit ▸ dots _ _
  · cases hedit

theorem rack_showsTour :
    (⟨.white, rack⟩ : Scene).Quiet ∧ rack.Everywhere Component.Founded ∧
      (Source.component [] .root).stops? rack = some [⟨[], rack.outward, 0⟩] ∧
      tending.Builds Component.Founded ∧ tending.Descends ∧
      (∀ turn ∈ (⟨.white, rack⟩ : Scene).turns tending 16 (.component [] .root) 0, turn.Free) ∧
      (⟨.white, rack⟩ : Scene).ShowsTour tending 16 (.component [] .root) 0
        [⟨[], rack.outward, 0⟩] ∧
      ((⟨.white, rack⟩ : Scene).turns tending 16 (.component [] .root) 0).map Turn.mark =
        [.shown [] 0 0, .shown [⟨0, 0⟩] 0 0, .shown [⟨0, 0⟩, ⟨0, 0⟩] 0 0,
          .shown [⟨0, 0⟩, ⟨0, 1⟩] 0 0, .shown [⟨0, 1⟩] 0 0, .shown [] 2 1] :=
  have free : ∀ turn ∈ (⟨.white, rack⟩ : Scene).turns tending 16 (.component [] .root) 0,
      turn.Free := by decide
  ⟨rack_quiet, rack_founded, rfl, tending_builds, fun _ _ _ => rfl, free,
    showsTour_of_founded ⟨.white, rack⟩ tending 16 (.component [] .root) 0 _ rack_quiet rack_founded
      rfl tending_builds (fun _ _ _ => rfl) free, by decide⟩

end Scene

end RetainedScene
