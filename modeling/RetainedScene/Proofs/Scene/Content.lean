import RetainedScene.Proofs.Scene.Frame

/-!
# What repeaters hold

The trunk of a component is all of it but what its repeaters hold, and the content of a repeater
is the list of the trunks of its instances. Filling a repeater changes its own content and what
lies inside its instances, and nothing else.
-/

set_option autoImplicit false

namespace RetainedScene

structure Trunk where
  index : Nat
  items : List Item
  tree : List Node
  repeaters : Nat
deriving DecidableEq

/-- Without the geometries of the items, which may change at any time. -/
def Trunk.unplaced (t : Trunk) : Trunk :=
  { t with items := t.items.map (·.withGeometry .zero) }

namespace Place

theorem mem_ownersFrom {outer place : Place} {a : RepeaterAddress} :
    a ∈ ownersFrom outer place ↔ ∃ before position rest,
      place = before ++ ⟨a.slot, position⟩ :: rest ∧ a.owner = outer ++ before := by
  induction place generalizing outer with
  | nil => simp [ownersFrom]
  | cons branch later ih =>
    rw [ownersFrom, List.mem_cons, ih]
    constructor
    · rintro (rfl | ⟨before, position, rest, hplace, howner⟩)
      · exact ⟨[], branch.position, later, rfl, (List.append_nil outer).symm⟩
      · exact ⟨branch :: before, position, rest, by rw [hplace, List.cons_append], by simpa using howner⟩
    · rintro ⟨before, position, rest, hplace, howner⟩
      cases before with
      | nil =>
        obtain ⟨rfl, -⟩ := List.cons.inj hplace
        left
        cases a
        simpa using howner
      | cons first before =>
        obtain ⟨rfl, hlater⟩ := List.cons.inj hplace
        exact .inr ⟨before, position, rest, hlater, by simpa using howner⟩

/-- A place lies inside a repeater if the way to it leads through one of its instances. -/
theorem mem_owners_iff {place : Place} {a : RepeaterAddress} :
    a ∈ owners place ↔ ∃ position rest, place = a.owner ++ ⟨a.slot, position⟩ :: rest := by
  rw [owners, mem_ownersFrom]
  constructor
  · rintro ⟨before, position, rest, hplace, howner⟩
    exact ⟨position, rest, by rw [hplace, howner, List.nil_append]⟩
  · rintro ⟨position, rest, hplace⟩
    exact ⟨a.owner, position, rest, hplace, rfl⟩

theorem owners_append (outer inner : Place) :
    owners (outer ++ inner) = owners outer ++ ownersFrom outer inner := by
  rw [owners, owners, ownersFrom_append, List.nil_append]

theorem owners_subset {place : Place} {a : RepeaterAddress} (h : a ∈ owners place) :
    owners a.owner ⊆ owners place := by
  obtain ⟨position, rest, rfl⟩ := mem_owners_iff.mp h
  rw [owners_append]
  exact List.subset_append_left ..

end Place

namespace Component

def trunk (c : Component) : Trunk :=
  ⟨c.index, c.items, c.tree, c.repeaters.length⟩

def content (c : Component) (a : RepeaterAddress) : Option (List Trunk) :=
  (c.repeater? a).map fun r => r.instances.map trunk

@[simp] theorem trunk_modifyRepeater (c : Component) (slot : Nat)
    (f : Repeater Component → Repeater Component) : (c.modifyRepeater slot f).trunk = c.trunk := by
  simp [trunk, modifyRepeater]

theorem repeater?_eq_bind (c : Component) (a : RepeaterAddress) :
    c.repeater? a = (c.get? a.owner).bind fun owner => owner.repeaters[a.slot]? := by
  rw [repeater?]
  cases c.get? a.owner <;> rfl

theorem repeater?_cons (c : Component) (branch : Branch) (rest : Place) (slot : Nat) :
    c.repeater? ⟨branch :: rest, slot⟩ =
      (c.instance? branch).bind fun d => d.repeater? ⟨rest, slot⟩ := by
  simp only [repeater?_eq_bind, get?_cons, Option.bind_assoc]

theorem repeater?_append (c : Component) (outer inner : Place) (slot : Nat) :
    c.repeater? ⟨outer ++ inner, slot⟩ =
      (c.get? outer).bind fun d => d.repeater? ⟨inner, slot⟩ := by
  simp only [repeater?_eq_bind, get?_append, Option.bind_assoc]

theorem get?_modify_self (f : Component → Component) (place : Place) (c : Component) :
    (c.modify f place).get? place = (c.get? place).map f := by
  induction place generalizing c with
  | nil => rfl
  | cons branch rest ih =>
    rw [get?_cons, get?_cons, instance?_modify, if_pos rfl]
    cases c.instance? branch with
    | none => rfl
    | some d => exact ih d

/-- Below the place of a change all is as the changed component has it. -/
theorem repeater?_modify_append (f : Component → Component) (c : Component) (outer inner : Place)
    (slot : Nat) : (c.modify f outer).repeater? ⟨outer ++ inner, slot⟩ =
      ((c.get? outer).map f).bind fun d => d.repeater? ⟨inner, slot⟩ := by
  rw [repeater?_append, get?_modify_self]

section

variable {α : Type} {skin : Component → α}

/-- The walks through a repeater, and what `skin` shows of its instances. -/
def stem (skin : Component → α) (r : Repeater Component) : Nat × List α :=
  (r.walks, r.instances.map skin)

variable (hskin : ∀ (d : Component) (slot : Nat) (g : Repeater Component → Repeater Component),
    skin (d.modifyRepeater slot g) = skin d) {f : Component → Component}
  (hf : ∀ d, skin (f d) = skin d)

include hskin hf

theorem skin_modify (place : Place) (d : Component) : skin (d.modify f place) = skin d := by
  cases place with
  | nil => exact hf d
  | cons branch rest => exact hskin d branch.repeater _

theorem stem_modify (place : Place) (c : Component) (b : RepeaterAddress)
    (h : ¬ place <+: b.owner) :
    ((c.modify f place).repeater? b).map (stem skin) = (c.repeater? b).map (stem skin) := by
  induction place generalizing c b with
  | nil => exact absurd (List.nil_prefix) h
  | cons branch rest ih =>
    obtain ⟨owner, slot⟩ := b
    cases owner with
    | nil =>
      change ((c.repeaters.modify branch.repeater _)[slot]?).map (stem skin) =
        (c.repeaters[slot]?).map (stem skin)
      rw [List.getElem?_modify]
      cases c.repeaters[slot]? with
      | none => rfl
      | some r =>
        by_cases hslot : branch.repeater = slot
        · have hmap : (r.instances.modify branch.position (modify f rest)).map skin =
              r.instances.map skin := by
            apply List.ext_getElem?
            intro k
            rw [List.getElem?_map, List.getElem?_map, List.getElem?_modify]
            cases r.instances[k]? with
            | none => rfl
            | some d => by_cases hk : branch.position = k <;> simp [hk, skin_modify hskin hf rest d]
          simp [hslot, stem, hmap]
        · simp [hslot]
    | cons next later =>
      rw [repeater?_cons, repeater?_cons, instance?_modify]
      by_cases hnext : branch = next
      · subst next
        rw [if_pos rfl]
        cases c.instance? branch with
        | none => rfl
        | some d => exact ih d ⟨later, slot⟩ fun hprefix => h (List.cons_prefix_cons.mpr ⟨rfl, hprefix⟩)
      · rw [if_neg hnext]

end

theorem repeater?_modifyRepeaterAt (c : Component) (a : RepeaterAddress)
    (f : Repeater Component → Repeater Component) :
    (c.modifyRepeaterAt a f).repeater? a = (c.repeater? a).map f := by
  have h := repeater?_modify_append (fun owner => owner.modifyRepeater a.slot f) c a.owner [] a.slot
  rw [List.append_nil] at h
  rw [modifyRepeaterAt, h, repeater?_eq_bind]
  cases c.get? a.owner with
  | none => rfl
  | some owner => exact List.getElem?_modify_eq ..

theorem repeater?_instance (c : Component) (a : RepeaterAddress) (position : Nat) (rest : Place)
    (slot : Nat) : c.repeater? ⟨a.owner ++ ⟨a.slot, position⟩ :: rest, slot⟩ =
      (c.repeater? a).bind fun r => (r.instances[position]?).bind fun d => d.repeater? ⟨rest, slot⟩ := by
  rw [repeater?_append, repeater?_eq_bind c, Option.bind_assoc]
  congr 1
  funext owner
  rw [repeater?_cons, instance?]
  cases owner.repeaters[a.slot]? <;> rfl

/-- What neither is the changed repeater nor lies inside it is as before. -/
theorem stem_modifyRepeaterAt (c : Component) {a b : RepeaterAddress}
    (f : Repeater Component → Repeater Component) (hne : b ≠ a) (houtside : a ∉ Place.owners b.owner) :
    ((c.modifyRepeaterAt a f).repeater? b).map (stem trunk) = (c.repeater? b).map (stem trunk) := by
  by_cases hprefix : a.owner <+: b.owner
  · obtain ⟨inner, hinner⟩ := hprefix
    obtain ⟨owner, slot⟩ := b
    obtain rfl : a.owner ++ inner = owner := hinner
    rw [modifyRepeaterAt, repeater?_modify_append, repeater?_append]
    refine congrArg _ ?_
    cases c.get? a.owner with
    | none => rfl
    | some owner =>
      -- The other repeaters of the owner are left alone.
      cases inner with
      | nil =>
        have hslot : a.slot ≠ slot := fun hslot => hne (by rw [List.append_nil, ← hslot])
        change (owner.repeaters.modify a.slot f)[slot]? = owner.repeaters[slot]?
        exact List.getElem?_modify_ne _ _ hslot
      | cons next later =>
        have hslot : a.slot ≠ next.repeater := by
          intro hslot
          refine houtside (Place.mem_owners_iff.mpr ⟨next.position, later, ?_⟩)
          rw [hslot]
        rw [Option.map_some, Option.bind_some, Option.bind_some, repeater?_cons, repeater?_cons]
        simp only [instance?, modifyRepeater, List.getElem?_modify_ne _ _ hslot]
  · exact stem_modify trunk_modifyRepeater (fun d => trunk_modifyRepeater d a.slot f) a.owner c b
      hprefix

theorem content_eq_stem (c : Component) (a : RepeaterAddress) :
    c.content a = ((c.repeater? a).map (stem trunk)).map Prod.snd := by
  rw [content, Option.map_map]
  rfl

theorem walks_eq_stem (c : Component) (a : RepeaterAddress) :
    (c.repeater? a).map Repeater.walks = ((c.repeater? a).map (stem trunk)).map Prod.fst := by
  rw [Option.map_map]
  rfl

/-- Of an instance, its trunk is in the content of its repeater. -/
theorem trunk_instancePlace (c : Component) (a : RepeaterAddress) (position : Nat) :
    (c.get? (a.instancePlace position)).map trunk =
      (c.content a).bind fun trunks => trunks[position]? := by
  rw [RepeaterAddress.instancePlace, get?_append, content, repeater?_eq_bind]
  cases c.get? a.owner with
  | none => rfl
  | some owner =>
    simp only [Option.bind_some, get?_cons, instance?]
    cases owner.repeaters[a.slot]? with
    | none => rfl
    | some r => cases h : r.instances[position]? <;> simp [get?, h]

@[simp] theorem trunk_modifyRepeaterAt (c : Component) (a : RepeaterAddress)
    (f : Repeater Component → Repeater Component) : (c.modifyRepeaterAt a f).trunk = c.trunk :=
  skin_modify trunk_modifyRepeater (fun d => trunk_modifyRepeater d a.slot f) a.owner c

/-- Walks through a repeater show in its own stem only. -/
theorem stem_modifyWalks (c : Component) {a b : RepeaterAddress} (g : Nat → Nat) (hne : b ≠ a) :
    ((c.modifyRepeaterAt a fun r => { r with walks := g r.walks }).repeater? b).map (stem trunk) =
      (c.repeater? b).map (stem trunk) := by
  by_cases hinside : a ∈ Place.owners b.owner
  · obtain ⟨position, rest, howner⟩ := Place.mem_owners_iff.mp hinside
    obtain ⟨owner, slot⟩ := b
    obtain rfl : owner = a.owner ++ ⟨a.slot, position⟩ :: rest := howner
    rw [repeater?_instance, repeater?_instance, repeater?_modifyRepeaterAt]
    cases c.repeater? a <;> rfl
  · exact stem_modifyRepeaterAt c _ hne hinside

theorem content_modifyWalks (c : Component) (a b : RepeaterAddress) (g : Nat → Nat) :
    (c.modifyRepeaterAt a fun r => { r with walks := g r.walks }).content b = c.content b := by
  by_cases hne : b = a
  · subst hne
    rw [content, content, repeater?_modifyRepeaterAt, Option.map_map]
    rfl
  · rw [content_eq_stem, content_eq_stem, stem_modifyWalks c g hne]

end Component

end RetainedScene
