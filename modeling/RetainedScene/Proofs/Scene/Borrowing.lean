import RetainedScene.Proofs.Scene.Refill

/-!
# Repeaters in use

The walks through the repeaters of a component are those of a chain if each repeater counts as
often as it is in the chain. Edits keep that, since none of them fills a repeater of the chain, and
what lies inside such a repeater stays as well.
-/

set_option autoImplicit false

namespace RetainedScene

namespace Component

/-- The walks through repeaters are those of a chain. -/
def Borrowed (root : Component) (chain : List RepeaterAddress) : Prop :=
  ∀ a r, root.repeater? a = some r → r.walks = chain.count a

theorem Borrowed.of_walks {c d : Component} {chain : List RepeaterAddress}
    (h : ∀ b, (d.repeater? b).map Repeater.walks = (c.repeater? b).map Repeater.walks)
    (hc : c.Borrowed chain) : d.Borrowed chain := by
  intro b r hr
  obtain ⟨r', hr', hwalks⟩ : ∃ r', c.repeater? b = some r' ∧ r'.walks = r.walks := by
    have hb := h b
    rw [hr] at hb
    exact Option.map_eq_some_iff.mp hb.symm
  rw [← hwalks]
  exact hc b r' hr'

/-- A change of how many walks pass through one repeater, and how the chain changes with it. -/
theorem Borrowed.modifyWalks {c : Component} {chain chain' : List RepeaterAddress}
    {a : RepeaterAddress} {g : Nat → Nat} (hself : g (chain.count a) = chain'.count a)
    (hother : ∀ b, b ≠ a → chain'.count b = chain.count b) (h : c.Borrowed chain) :
    (c.modifyRepeaterAt a fun r => { r with walks := g r.walks }).Borrowed chain' := by
  intro b r hr
  by_cases hne : b = a
  · subst hne
    rw [repeater?_modifyRepeaterAt] at hr
    obtain ⟨r', hr', rfl⟩ := Option.map_eq_some_iff.mp hr
    rw [← hself, ← h b r' hr']
  · have hstem := congrArg (Option.map Prod.fst) (stem_modifyWalks c (a := a) g hne)
    rw [← walks_eq_stem, ← walks_eq_stem, hr] at hstem
    obtain ⟨r', hr', hwalks⟩ := Option.map_eq_some_iff.mp hstem.symm
    rw [← hwalks, hother b hne]
    exact h b r' hr'

theorem Borrowed.not_mem {c : Component} {chain : List RepeaterAddress} {a : RepeaterAddress}
    (h : c.Borrowed chain) (hidle : (c.repeater? a).map Repeater.walks = some 0) : a ∉ chain := by
  obtain ⟨r, hr, hwalks⟩ := Option.map_eq_some_iff.mp hidle
  rw [← List.count_eq_zero, ← h a r hr]
  exact hwalks

theorem Borrowed.refill {c d : Component} {place : Place} {a : RepeaterAddress}
    {instances : List Component} (h : c.Borrowed (Place.owners place))
    (hd : c.Refilled d a instances) (hnew : ∀ x ∈ instances, x.Borrowed []) :
    d.Borrowed (Place.owners place) := by
  have hfree : a ∉ Place.owners place := h.not_mem hd.idle
  intro b r hr
  by_cases hne : b = a
  · subst hne
    rw [hd.self] at hr
    obtain rfl := Option.some.inj hr
    exact (List.count_eq_zero.mpr hfree).symm
  · by_cases hinside : a ∈ Place.owners b.owner
    · -- Nothing on the chain lies inside the filled repeater, and in new instances no walk does.
      have hb : b ∉ Place.owners place := fun hb => hfree (Place.owners_subset hb hinside)
      obtain ⟨position, rest, howner⟩ := Place.mem_owners_iff.mp hinside
      obtain ⟨owner, slot⟩ := b
      obtain rfl : owner = a.owner ++ ⟨a.slot, position⟩ :: rest := howner
      rw [hd.inside] at hr
      obtain ⟨x, hx, hr⟩ := Option.bind_eq_some_iff.mp hr
      rw [List.count_eq_zero.mpr hb]
      exact hnew x (List.mem_of_getElem? hx) _ r hr
    · have hstem := congrArg (Option.map Prod.fst) (hd.outside hne hinside)
      rw [← walks_eq_stem, ← walks_eq_stem, hr] at hstem
      obtain ⟨r', hr', hwalks⟩ := Option.map_eq_some_iff.mp hstem.symm
      rw [← hwalks]
      exact h b r' hr'

/-- A component is at rest if its own repeaters and those of its instances are. -/
theorem borrowed_nil {c : Component}
    (h : ∀ r ∈ c.repeaters, r.walks = 0 ∧ ∀ x ∈ r.instances, x.Borrowed []) : c.Borrowed [] := by
  intro b r hr
  obtain ⟨owner, slot⟩ := b
  rw [List.count_nil]
  cases owner with
  | nil => exact (h r (List.mem_of_getElem? hr)).1
  | cons branch rest =>
    rw [repeater?_cons, instance?] at hr
    obtain ⟨x, hx, hr⟩ := Option.bind_eq_some_iff.mp hr
    cases howner : c.repeaters[branch.repeater]? with
    | none => simp [howner] at hx
    | some outer =>
      rw [howner] at hx
      exact (h outer (List.mem_of_getElem? howner)).2 x (List.mem_of_getElem? hx) _ r hr

end Component

namespace Blueprint

open Component

mutual

theorem make_borrowed (host : Color) (index : Nat) :
    (b : Blueprint) → (make host index b).Borrowed []
  | ⟨items, tree, feeds⟩ => by
    rw [make]
    exact borrowed_nil (makeRepeaters_borrowed host feeds)

theorem makeRepeaters_borrowed (host : Color) : (feeds : List (Feed Blueprint)) →
    ∀ r ∈ makeRepeaters host feeds, r.walks = 0 ∧ ∀ x ∈ r.instances, x.Borrowed []
  | [] => by simp [makeRepeaters]
  | feed :: rest => by
    intro r hr
    rw [makeRepeaters] at hr
    rcases List.mem_cons.mp hr with rfl | hr
    · exact ⟨rfl, makeInstances_borrowed host feed⟩
    · exact makeRepeaters_borrowed host rest r hr

theorem makeInstances_borrowed (host : Color) : (feed : Feed Blueprint) →
    ∀ x ∈ makeInstances host feed, x.Borrowed []
  | .dots count => by
    intro x hx
    rw [makeInstances] at hx
    obtain ⟨index, hindex, rfl⟩ := List.mem_mapIdx.mp hx
    exact borrowed_nil (by simp [Component.dot])
  | .components blueprints => by
    intro x hx
    rw [makeInstances] at hx
    exact makeEach_borrowed host 0 blueprints x hx

theorem makeEach_borrowed (host : Color) (index : Nat) : (blueprints : List Blueprint) →
    ∀ x ∈ makeEach host index blueprints, x.Borrowed []
  | [] => by simp [makeEach]
  | b :: rest => by
    intro x hx
    rw [makeEach] at hx
    rcases List.mem_cons.mp hx with rfl | hx
    · exact make_borrowed host index b
    · exact makeEach_borrowed host (index + 1) rest x hx

end

end Blueprint

theorem Edit.refill_borrowed {host : Color} {edit : Edit} {a : RepeaterAddress}
    {instances : List Component} (h : edit.refill? host = some (a, instances)) :
    ∀ x ∈ instances, x.Borrowed [] := by
  cases edit with
  | update b feed =>
    cases h
    exact Blueprint.makeInstances_borrowed host feed
  | clear b =>
    cases h
    simp
  | setHost color => cases h
  | setGeometry owner slot geometry => cases h

namespace Component

/-- What the instances of a repeater show, apart from the geometries of their items. -/
def holdings (c : Component) (a : RepeaterAddress) : Option (List Trunk) :=
  (c.content a).map (List.map Trunk.unplaced)

theorem holdings_eq_stem (c : Component) (a : RepeaterAddress) :
    c.holdings a = ((c.repeater? a).map (stem outward)).map Prod.snd := by
  rw [holdings, content, Option.map_map, Option.map_map]
  congr 1
  funext r
  simp only [Function.comp_apply, List.map_map]
  rfl

theorem holdings_modifyWalks (c : Component) (a b : RepeaterAddress) (g : Nat → Nat) :
    (c.modifyRepeaterAt a fun r => { r with walks := g r.walks }).holdings b = c.holdings b := by
  rw [holdings, holdings, content_modifyWalks]

theorem outward_instancePlace (c : Component) (a : RepeaterAddress) (position : Nat) :
    (c.get? (a.instancePlace position)).map outward =
      (c.holdings a).bind fun shown => shown[position]? := by
  have htrunk := congrArg (Option.map Trunk.unplaced) (c.trunk_instancePlace a position)
  rw [Option.map_map] at htrunk
  rw [holdings]
  refine htrunk.trans ?_
  cases c.content a with
  | none => rfl
  | some trunks => simp

end Component

/-- What the repeaters of a chain hold is, but for geometries, as it was. -/
def Component.Keeps (c d : Component) (chain : List RepeaterAddress) : Prop :=
  ∀ a ∈ chain, d.holdings a = c.holdings a

namespace Component

variable {c d e : Component} {chain : List RepeaterAddress}

theorem Keeps.trans (h : c.Keeps d chain) (h' : d.Keeps e chain) : c.Keeps e chain :=
  fun a ha => (h' a ha).trans (h a ha)

/-- A component has not gone if all on the way to it is kept. -/
theorem Keeps.outward_eq {place : Place} (h : c.Keeps d (Place.owners place))
    (hroot : d.outward = c.outward) :
    (d.get? place).map outward = (c.get? place).map outward := by
  rcases List.eq_nil_or_concat place with rfl | ⟨outer, branch, hplace⟩
  · exact congrArg some hroot
  · rw [List.concat_eq_append] at hplace
    subst hplace
    have hlast : (⟨outer, branch.repeater⟩ : RepeaterAddress) ∈
        Place.owners (outer ++ [branch]) :=
      Place.mem_owners_iff.mpr ⟨branch.position, [], rfl⟩
    have hd := d.outward_instancePlace ⟨outer, branch.repeater⟩ branch.position
    have hc := c.outward_instancePlace ⟨outer, branch.repeater⟩ branch.position
    rw [h _ hlast] at hd
    exact hd.trans hc.symm

theorem Refilled.keeps {a : RepeaterAddress} {instances : List Component} {place : Place}
    (h : c.Refilled d a instances) (hfree : a ∉ Place.owners place) :
    c.Keeps d (Place.owners place) := by
  intro b hb
  have hne : b ≠ a := fun hba => hfree (hba ▸ hb)
  have houtside : a ∉ Place.owners b.owner := fun ha => hfree (Place.owners_subset hb ha)
  rw [holdings, holdings, h.content_outside hne houtside]

theorem Borrowed.hold (h : c.Borrowed chain) (a : RepeaterAddress) :
    (c.modifyRepeaterAt a fun r => { r with walks := r.walks + 1 }).Borrowed (chain ++ [a]) := by
  refine Borrowed.modifyWalks (g := (· + 1)) ?_ (fun b hne => ?_) h
  · rw [List.count_append, List.count_singleton_self]
  · rw [List.count_append, List.count_singleton, if_neg (by simpa using Ne.symm hne), Nat.add_zero]

theorem Borrowed.release {a : RepeaterAddress} (h : c.Borrowed (chain ++ [a])) :
    (c.modifyRepeaterAt a fun r => { r with walks := r.walks - 1 }).Borrowed chain := by
  refine Borrowed.modifyWalks (g := (· - 1)) ?_ (fun b hne => ?_) h
  · rw [List.count_append, List.count_singleton_self, Nat.add_sub_cancel]
  · rw [List.count_append, List.count_singleton, if_neg (by simpa using Ne.symm hne), Nat.add_zero]

end Component

namespace Scene

variable {s t : Scene} {edit : Edit} {place : Place}

/-- An edit that takes effect while a walk has reached a place leaves the way to it alone. -/
theorem apply_onWay (h : s.apply edit = .ok t)
    (hs : s.root.Borrowed (Place.owners place)) :
    t.root.Borrowed (Place.owners place) ∧ s.root.Keeps t.root (Place.owners place) ∧
      t.root.outward = s.root.outward := by
  rcases apply_cases h with ⟨a, instances, hrefill, hfilled, -⟩ | ⟨host, -, rfl⟩ |
    ⟨owner, slot, geometry, -, rfl⟩
  · refine ⟨hs.refill hfilled (Edit.refill_borrowed hrefill),
      hfilled.keeps (hs.not_mem hfilled.idle), ?_⟩
    rw [Component.outward, Component.outward, hfilled.trunk_eq]
  · exact ⟨hs, fun _ _ => rfl, rfl⟩
  · have hstem := s.root.stem_moveItem owner slot geometry
    refine ⟨hs.of_walks fun b => ?_, fun b _ => ?_, ?_⟩
    · have hb := congrArg (Option.map Prod.fst) (hstem b)
      rw [Option.map_map, Option.map_map] at hb
      exact hb
    · rw [Component.holdings_eq_stem, Component.holdings_eq_stem, hstem]
    · exact Component.skin_modify Component.outward_modifyRepeater
        (fun d => Component.outward_moveItem d slot geometry) owner s.root

theorem applyAll_onWay (edits : List Edit) (hs : s.root.Borrowed (Place.owners place)) :
    (s.applyAll edits).1.root.Borrowed (Place.owners place) ∧
      s.root.Keeps (s.applyAll edits).1.root (Place.owners place) ∧
      (s.applyAll edits).1.root.outward = s.root.outward := by
  refine applyAll_preserves (P := fun t => t.root.Borrowed (Place.owners place) ∧
    s.root.Keeps t.root (Place.owners place) ∧ t.root.outward = s.root.outward) ?_ ⟨hs, fun _ _ => rfl, rfl⟩ edits
  rintro t edit u h ⟨ht, hkeeps, houtward⟩
  obtain ⟨hu, hkeeps', houtward'⟩ := apply_onWay h ht
  exact ⟨hu, hkeeps.trans hkeeps', houtward'.trans houtward⟩

end Scene

end RetainedScene
