import RetainedScene.Proofs.Scene.Borrowing
import RetainedScene.Proofs.Scene.Founded

/-!
# What all components of a scene have in common

A property that does not depend on the geometries of items stays true of all components of a scene
if it is true of those that edits bring in. And walks that pass through repeaters make no component
larger or smaller.
-/

set_option autoImplicit false

namespace RetainedScene

namespace Component

def Everywhere (P : Component → Prop) (c : Component) : Prop :=
  ∀ place d, c.get? place = some d → P d

/-- A property that depends on what a component shows apart from geometries. -/
def Outward (P : Component → Prop) : Prop :=
  ∀ c d : Component, d.outward = c.outward → P c → P d

theorem outward_fields {c d : Component} (h : d.outward = c.outward) :
    d.tree = c.tree ∧ d.items.length = c.items.length ∧
      d.repeaters.length = c.repeaters.length := by
  rw [outward, outward, Trunk.unplaced, Trunk.unplaced, Trunk.mk.injEq] at h
  obtain ⟨-, hitems, htree, hrepeaters⟩ := h
  have hlength := congrArg List.length hitems
  rw [List.length_map, List.length_map] at hlength
  exact ⟨htree, hlength, hrepeaters⟩

theorem outward_founded : Outward Founded := by
  intro c d h hc
  obtain ⟨htree, hitems, hrepeaters⟩ := outward_fields h
  constructor
  · constructor
    · constructor
      · intro index slot first count hnode
        rw [hitems]
        exact hc.item (htree ▸ hnode)
      · intro index slot hnode
        rw [hrepeaters]
        exact hc.repeater (htree ▸ hnode)
      · intro index slot first count hnode
        exact hc.fits (htree ▸ hnode)
    · intro index slot first count hnode
      exact hc.after (htree ▸ hnode)
  · intro index slot first count hnode
    rw [htree]
    exact hc.inside (htree ▸ hnode)

variable {P : Component → Prop} {c d : Component}

/-- A component is as good as the instances of its repeaters and itself are. -/
theorem Everywhere.of_all (here : P c) (h : ∀ r ∈ c.repeaters, ∀ x ∈ r.instances, x.Everywhere P) :
    c.Everywhere P := by
  intro place d hd
  cases place with
  | nil =>
    obtain rfl : c = d := Option.some.inj hd
    exact here
  | cons branch rest =>
    rw [get?_cons, instance?] at hd
    obtain ⟨x, hx, hd⟩ := Option.bind_eq_some_iff.mp hd
    cases hr : c.repeaters[branch.repeater]? with
    | none => simp [hr] at hx
    | some r =>
      rw [hr] at hx
      exact h r (List.mem_of_getElem? hr) x (List.mem_of_getElem? hx) rest d hd

theorem Everywhere.of_outward (hP : Outward P)
    (h : ∀ place, (d.get? place).map outward = (c.get? place).map outward)
    (hc : c.Everywhere P) : d.Everywhere P := by
  intro place x hx
  have hplace := h place
  rw [hx] at hplace
  obtain ⟨y, hy, houtward⟩ := Option.map_eq_some_iff.mp hplace.symm
  exact hP y x houtward.symm (hc place y hy)

theorem Everywhere.of_holdings (hP : Outward P) (h : ∀ a, d.holdings a = c.holdings a)
    (hroot : d.outward = c.outward) (hc : c.Everywhere P) : d.Everywhere P :=
  hc.of_outward hP fun _ => Keeps.outward_eq (fun a _ => h a) hroot

theorem Refilled.get?_inside {a : RepeaterAddress} {instances : List Component}
    (h : c.Refilled d a instances) (position : Nat) (rest : Place) :
    d.get? (a.owner ++ ⟨a.slot, position⟩ :: rest) =
      (instances[position]?).bind fun x => x.get? rest := by
  have hself := h.self
  rw [repeater?_eq_bind] at hself
  obtain ⟨owner, howner, hslot⟩ := Option.bind_eq_some_iff.mp hself
  rw [get?_append, howner, Option.bind_some, get?_cons, instance?, hslot]

theorem Refilled.everywhere {a : RepeaterAddress} {instances : List Component} (hP : Outward P)
    (h : c.Refilled d a instances) (hc : c.Everywhere P)
    (hnew : ∀ x ∈ instances, x.Everywhere P) : d.Everywhere P := by
  intro place x hx
  by_cases ha : a ∈ Place.owners place
  · obtain ⟨position, rest, rfl⟩ := Place.mem_owners_iff.mp ha
    rw [h.get?_inside] at hx
    obtain ⟨made, hmade, hx⟩ := Option.bind_eq_some_iff.mp hx
    exact hnew made (List.mem_of_getElem? hmade) rest x hx
  · have hplace := (h.keeps ha).outward_eq (by rw [outward, outward, h.trunk_eq])
    rw [hx] at hplace
    obtain ⟨y, hy, houtward⟩ := Option.map_eq_some_iff.mp hplace.symm
    exact hP y x houtward.symm (hc place y hy)

end Component

/-- Edits that bring in components of one kind only. -/
def Edit.Builds (P : Component → Prop) (edit : Edit) : Prop :=
  ∀ host a instances, edit.refill? host = some (a, instances) →
    ∀ x ∈ instances, x.Everywhere P

namespace Scene

variable {P : Component → Prop} {s t : Scene}

theorem everywhere_apply (hP : Component.Outward P) {edit : Edit} (h : s.apply edit = .ok t)
    (builds : edit.Builds P) (hs : s.root.Everywhere P) : t.root.Everywhere P := by
  rcases apply_cases h with ⟨a, instances, hrefill, hfilled, -⟩ | ⟨host, -, rfl⟩ |
    ⟨owner, slot, geometry, -, rfl⟩
  · exact hfilled.everywhere hP hs (builds s.host a instances hrefill)
  · exact hs
  · refine hs.of_holdings hP (fun b => ?_) ?_
    · rw [Component.holdings_eq_stem, Component.holdings_eq_stem, Component.stem_moveItem]
    · exact Component.skin_modify Component.outward_modifyRepeater
        (fun d => Component.outward_moveItem d slot geometry) owner s.root

theorem everywhere_applyAll (hP : Component.Outward P) (edits : List Edit)
    (builds : ∀ edit ∈ edits, edit.Builds P) (hs : s.root.Everywhere P) :
    (s.applyAll edits).1.root.Everywhere P := by
  induction edits generalizing s with
  | nil => exact hs
  | cons edit rest ih =>
    rw [applyAll_cons]
    cases happly : s.apply edit with
    | error fault => exact hs
    | ok t =>
      have ht := everywhere_apply hP happly (builds edit List.mem_cons_self) hs
      exact ih (fun edit hedit => builds edit (List.mem_cons_of_mem _ hedit)) ht

end Scene

namespace Component

/-- Sizes of a component and of all that is generated in it. -/
def sizes (c : Component) : Place → Option Nat :=
  fun place => (c.get? place).map size

theorem sizeOfInstances_modify (f : Component → Component) (hf : ∀ d, (f d).size = d.size)
    (position : Nat) (instances : List Component) :
    sizeOfInstances (instances.modify position f) = sizeOfInstances instances := by
  induction instances generalizing position with
  | nil => rw [List.modify_nil]
  | cons d rest ih =>
    cases position with
    | zero => rw [List.modify_zero_cons, sizeOfInstances, sizeOfInstances, hf]
    | succ position => rw [List.modify_succ_cons, sizeOfInstances, sizeOfInstances, ih]

theorem sizeOfRepeaters_modify (f : Repeater Component → Repeater Component)
    (hf : ∀ r, sizeOfInstances (f r).instances = sizeOfInstances r.instances) (slot : Nat)
    (repeaters : List (Repeater Component)) :
    sizeOfRepeaters (repeaters.modify slot f) = sizeOfRepeaters repeaters := by
  induction repeaters generalizing slot with
  | nil => rw [List.modify_nil]
  | cons r rest ih =>
    cases slot with
    | zero => rw [List.modify_zero_cons, sizeOfRepeaters, sizeOfRepeaters, hf]
    | succ slot => rw [List.modify_succ_cons, sizeOfRepeaters, sizeOfRepeaters, ih]

theorem size_modifyRepeater (c : Component) (slot : Nat)
    (f : Repeater Component → Repeater Component)
    (hf : ∀ r, sizeOfInstances (f r).instances = sizeOfInstances r.instances) :
    (c.modifyRepeater slot f).size = c.size := by
  rw [size_eq, size_eq, modifyRepeater, sizeOfRepeaters_modify f hf]

theorem size_modify (f : Component → Component) (hf : ∀ d, (f d).size = d.size) (place : Place)
    (c : Component) : (c.modify f place).size = c.size := by
  induction place generalizing c with
  | nil => exact hf c
  | cons branch rest ih =>
    exact size_modifyRepeater c branch.repeater _ fun r => sizeOfInstances_modify _ ih _ _

/-- A change that does not show in sizes where it is made shows in none at all. -/
theorem sizes_modify (f : Component → Component) (hf : ∀ d, (f d).sizes = d.sizes) (place : Place)
    (c : Component) : (c.modify f place).sizes = c.sizes := by
  induction place generalizing c with
  | nil => exact hf c
  | cons branch rest ih =>
    funext other
    cases other with
    | nil =>
      refine congrArg some (size_modify f (fun d => ?_) (branch :: rest) c)
      exact Option.some.inj (congrFun (hf d) [])
    | cons next later =>
      rw [sizes, sizes, get?_cons, get?_cons, instance?_modify]
      by_cases h : branch = next
      · subst next
        rw [if_pos rfl]
        cases c.instance? branch with
        | none => rfl
        | some d => exact congrFun (ih d) later
      · rw [if_neg h]

theorem sizes_modifyWalks (c : Component) (a : RepeaterAddress) (g : Nat → Nat) :
    (c.modifyRepeaterAt a fun r => { r with walks := g r.walks }).sizes = c.sizes := by
  refine sizes_modify _ (fun d => ?_) a.owner c
  funext place
  cases place with
  | nil => exact congrArg some (size_modifyRepeater d a.slot _ fun _ => rfl)
  | cons branch rest =>
    rw [sizes, sizes, get?_cons, get?_cons, instance?, instance?, modifyRepeater,
      List.getElem?_modify]
    by_cases h : a.slot = branch.repeater
    · cases d.repeaters[branch.repeater]? <;> simp [h]
    · simp [h]

end Component

end RetainedScene
