import RetainedScene.Proofs.Scene.Content

/-!
# What an edit does

An edit of a repeater is refused while a walk is passing through it, and otherwise gives it the
instances made for it. All that lies inside them is new, and all that does not is left alone.
-/

set_option autoImplicit false

namespace RetainedScene

/-- The repeater that an edit fills, and the instances that are made for it. -/
def Edit.refill? (host : Color) : Edit → Option (RepeaterAddress × List Component)
  | .update a feed => some (a, Blueprint.makeInstances host feed)
  | .clear a => some (a, [])
  | .setHost _ => none
  | .setGeometry _ _ _ => none

/-- The repeater that an edit is about. -/
def Edit.target? : Edit → Option RepeaterAddress
  | .update a _ => some a
  | .clear a => some a
  | .setHost _ => none
  | .setGeometry _ _ _ => none

theorem Edit.target?_eq (host : Color) (edit : Edit) :
    edit.target? = (edit.refill? host).map Prod.fst := by
  cases edit <;> rfl

namespace Component

/-- `d` is `c` with one of its repeaters, which no walk was passing through, filled anew. -/
structure Refilled (c d : Component) (a : RepeaterAddress) (instances : List Component) :
    Prop where
  idle : (c.repeater? a).map Repeater.walks = some 0
  self : d.repeater? a = some ⟨instances, 0⟩
  outside {b : RepeaterAddress} : b ≠ a → a ∉ Place.owners b.owner →
    (d.repeater? b).map (stem trunk) = (c.repeater? b).map (stem trunk)
  trunk_eq : d.trunk = c.trunk

variable {c d : Component} {a : RepeaterAddress} {instances : List Component}

theorem Refilled.inside (h : c.Refilled d a instances) (position : Nat) (rest : Place)
    (slot : Nat) : d.repeater? ⟨a.owner ++ ⟨a.slot, position⟩ :: rest, slot⟩ =
      (instances[position]?).bind fun x => x.repeater? ⟨rest, slot⟩ := by
  rw [repeater?_instance, h.self]
  rfl

theorem Refilled.content_self (h : c.Refilled d a instances) :
    d.content a = some (instances.map trunk) := by
  rw [content, h.self]
  rfl

theorem Refilled.content_outside (h : c.Refilled d a instances) {b : RepeaterAddress} (hne : b ≠ a)
    (houtside : a ∉ Place.owners b.owner) : d.content b = c.content b := by
  rw [content_eq_stem, content_eq_stem, h.outside hne houtside]

theorem refilled_modifyRepeaterAt {r : Repeater Component} (hr : c.repeater? a = some r)
    (hwalks : r.walks = 0) (instances : List Component) :
    c.Refilled (c.modifyRepeaterAt a fun _ => { r with instances }) a instances where
  idle := by rw [hr, Option.map_some, hwalks]
  self := by rw [repeater?_modifyRepeaterAt, hr, Option.map_some, hwalks]
  outside := stem_modifyRepeaterAt c _
  trunk_eq := trunk_modifyRepeaterAt c a _

/-- What a component shows apart from the geometries of its items. -/
def outward (c : Component) : Trunk :=
  c.trunk.unplaced

theorem outward_modifyRepeater (c : Component) (slot : Nat)
    (f : Repeater Component → Repeater Component) : (c.modifyRepeater slot f).outward = c.outward := by
  rw [outward, trunk_modifyRepeater, outward]

theorem outward_moveItem (c : Component) (slot : Nat) (geometry : Rect) :
    ({ c with items := c.items.modify slot (·.withGeometry geometry) } : Component).outward =
      c.outward := by
  have hitem : ∀ item : Item, (item.withGeometry geometry).withGeometry .zero =
      item.withGeometry .zero := by
    intro item
    cases item <;> rfl
  have hitems : (c.items.modify slot (·.withGeometry geometry)).map (·.withGeometry .zero) =
      c.items.map (·.withGeometry .zero) := by
    apply List.ext_getElem?
    intro k
    rw [List.getElem?_map, List.getElem?_map, List.getElem?_modify]
    cases c.items[k]? with
    | none => rfl
    | some item => by_cases hk : slot = k <;> simp [hk, hitem]
  simp only [outward, Trunk.unplaced, trunk, hitems]

theorem stem_moveItem (c : Component) (place : Place) (slot : Nat) (geometry : Rect)
    (b : RepeaterAddress) :
    ((c.modifyItem place slot (·.withGeometry geometry)).repeater? b).map (stem outward) =
      (c.repeater? b).map (stem outward) := by
  by_cases hprefix : place <+: b.owner
  · obtain ⟨inner, hinner⟩ := hprefix
    obtain ⟨owner, other⟩ := b
    obtain rfl : place ++ inner = owner := hinner
    rw [modifyItem, repeater?_modify_append, repeater?_append]
    cases c.get? place with
    | none => rfl
    | some owner => cases inner <;> rfl
  · exact stem_modify outward_modifyRepeater (fun d => outward_moveItem d slot geometry) place c b
      hprefix

end Component

namespace Scene

variable {s t : Scene} {edit : Edit} {a : RepeaterAddress} {instances : List Component}

theorem fill_eq {r : Repeater Component} (hr : s.root.repeater? a = some r)
    (instances : List Component) : s.fill a instances =
      if r.walks = 0 then
        .ok { s with root := s.root.modifyRepeaterAt a fun _ => { r with instances } }
      else .error .repeaterInUse := by
  rw [fill, hr]
  by_cases hwalks : r.walks = 0 <;> simp [Repeater.fill, hwalks]

theorem apply_refill (h : edit.refill? s.host = some (a, instances)) :
    s.apply edit = s.fill a instances := by
  cases edit with
  | update b feed => cases h; rfl
  | clear b => cases h; rfl
  | setHost host => cases h
  | setGeometry owner slot geometry => cases h

theorem apply_refill_ok {r : Repeater Component} (h : edit.refill? s.host = some (a, instances))
    (hr : s.root.repeater? a = some r) (hwalks : r.walks = 0) :
    ∃ t, s.apply edit = .ok t ∧ s.root.Refilled t.root a instances ∧ t.host = s.host := by
  rw [apply_refill h, fill_eq hr, if_pos hwalks]
  exact ⟨_, rfl, Component.refilled_modifyRepeaterAt hr hwalks instances, rfl⟩

theorem apply_refill_inUse {r : Repeater Component}
    (h : edit.refill? s.host = some (a, instances)) (hr : s.root.repeater? a = some r)
    (hwalks : r.walks ≠ 0) : s.apply edit = .error .repeaterInUse := by
  rw [apply_refill h, fill_eq hr, if_neg hwalks]

/-- The ways in which an edit takes effect. -/
theorem apply_cases (h : s.apply edit = .ok t) :
    (∃ a instances, edit.refill? s.host = some (a, instances) ∧
      s.root.Refilled t.root a instances ∧ t.host = s.host) ∨
    (∃ host, edit = .setHost host ∧ t = { s with host }) ∨
    ∃ owner slot geometry, edit = .setGeometry owner slot geometry ∧
      t = { s with root := s.root.modifyItem owner slot (·.withGeometry geometry) } := by
  cases hrefill : edit.refill? s.host with
  | some filled =>
    obtain ⟨a, instances⟩ := filled
    rw [apply_refill hrefill] at h
    cases hr : s.root.repeater? a with
    | none => simp [fill, hr] at h
    | some r =>
      rw [fill_eq hr] at h
      by_cases hwalks : r.walks = 0
      · rw [if_pos hwalks] at h
        obtain rfl := Except.ok.inj h
        exact .inl ⟨a, instances, rfl, Component.refilled_modifyRepeaterAt hr hwalks instances, rfl⟩
      · rw [if_neg hwalks] at h
        cases h
  | none =>
    cases edit with
    | update a feed => cases hrefill
    | clear a => cases hrefill
    | setHost host => exact .inr (.inl ⟨host, rfl, (Except.ok.inj h).symm⟩)
    | setGeometry owner slot geometry =>
      rw [apply] at h
      cases hitem : s.root.item? owner slot with
      | none => simp [hitem] at h
      | some item =>
        rw [hitem] at h
        exact .inr (.inr ⟨owner, slot, geometry, rfl, (Except.ok.inj h).symm⟩)

theorem applyAll_cons (s : Scene) (edit : Edit) (rest : List Edit) :
    s.applyAll (edit :: rest) = match s.apply edit with
      | .ok t => t.applyAll rest
      | .error fault => (s, some fault) := by
  cases h : s.apply edit <;> simp only [applyAll, h]

/-- What every edit that takes effect preserves, a list of edits preserves as well. -/
theorem applyAll_preserves {P : Scene → Prop}
    (step : ∀ s edit t, s.apply edit = .ok t → P s → P t) {s : Scene} (h : P s)
    (edits : List Edit) : P (s.applyAll edits).1 := by
  induction edits generalizing s with
  | nil => exact h
  | cons edit rest ih =>
    rw [applyAll_cons]
    cases happly : s.apply edit with
    | ok t => exact ih (step s edit t happly h)
    | error fault => exact h

end Scene

end RetainedScene
