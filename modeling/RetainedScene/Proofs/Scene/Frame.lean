import RetainedScene.Scene.Basic

/-!
# What a walk goes by

Where a walk leads is decided by the trees on the way, and by how many items and instances there
are. Moving items, changing the color of the host, and holding repeaters keep all of that.
-/

set_option autoImplicit false

namespace RetainedScene

/-- What is read of a component to find the way through it. -/
structure Frame where
  tree : List Node
  items : Nat
  instances : List Nat

namespace Component

def frame (c : Component) : Frame :=
  ⟨c.tree, c.items.length, c.repeaters.map Repeater.length⟩

/-- The frames of a component and of all that is generated in it. -/
def frames (c : Component) : Place → Option Frame :=
  fun place => (c.get? place).map frame

theorem get?_cons (c : Component) (branch : Branch) (rest : Place) :
    c.get? (branch :: rest) = (c.instance? branch).bind fun d => d.get? rest := by
  cases h : c.instance? branch <;> simp [get?, h]

theorem get?_append (c : Component) (outer inner : Place) :
    c.get? (outer ++ inner) = (c.get? outer).bind fun d => d.get? inner := by
  induction outer generalizing c with
  | nil => rfl
  | cons branch rest ih =>
    rw [List.cons_append, get?_cons, get?_cons]
    cases c.instance? branch with
    | none => rfl
    | some d => exact ih d

theorem get?_instancePlace (root c : Component) (place : Place) (slot position : Nat)
    (h : root.get? place = some c) :
    root.get? ((⟨place, slot⟩ : RepeaterAddress).instancePlace position) =
      c.instance? ⟨slot, position⟩ := by
  rw [RepeaterAddress.instancePlace, get?_append, h, Option.bind_some, get?_cons]
  cases c.instance? ⟨slot, position⟩ <;> rfl

theorem instance?_eq_some {c d : Component} {slot position : Nat} {r : Repeater Component}
    (hr : c.repeaters[slot]? = some r) (hd : r.instances[position]? = some d) :
    c.instance? ⟨slot, position⟩ = some d := by
  simp [instance?, hr, hd]

theorem frame_modifyRepeater (c : Component) (slot : Nat)
    (f : Repeater Component → Repeater Component) (hf : ∀ r, (f r).length = r.length) :
    (c.modifyRepeater slot f).frame = c.frame := by
  have h : (c.repeaters.modify slot f).map Repeater.length = c.repeaters.map Repeater.length := by
    apply List.ext_getElem?
    intro k
    rw [List.getElem?_map, List.getElem?_map, List.getElem?_modify]
    cases c.repeaters[k]? with
    | none => rfl
    | some r => by_cases hk : slot = k <;> simp [hk, hf]
  simp only [frame, modifyRepeater, h]

theorem instance?_modify (c : Component) (f : Component → Component) (branch other : Branch)
    (rest : Place) :
    (c.modify f (branch :: rest)).instance? other =
      if branch = other then (c.instance? other).map (modify f rest)
      else c.instance? other := by
  obtain ⟨slot, position⟩ := branch
  obtain ⟨slot', position'⟩ := other
  simp only [modify, modifyRepeater, instance?, List.getElem?_modify, Branch.mk.injEq]
  by_cases hs : slot = slot'
  · subst slot'
    cases c.repeaters[slot]? with
    | none => simp
    | some r =>
      by_cases hp : position = position'
      · simp [hp]
      · simp [hp]
  · cases c.repeaters[slot']? <;> simp [hs]

/-- A change that no frame shows where it is made is shown by no frame at all. -/
theorem frames_modify (f : Component → Component) (hf : ∀ d, (f d).frames = d.frames)
    (place : Place) (c : Component) : (c.modify f place).frames = c.frames := by
  induction place generalizing c with
  | nil => exact hf c
  | cons branch rest ih =>
    funext other
    cases other with
    | nil =>
      refine congrArg some (frame_modifyRepeater c branch.repeater _ fun r => ?_)
      exact List.length_modify ..
    | cons next later =>
      rw [frames, frames, get?_cons, get?_cons, instance?_modify]
      by_cases h : branch = next
      · subst next
        rw [if_pos rfl]
        cases c.instance? branch with
        | none => rfl
        | some d => exact congrFun (ih d) later
      · rw [if_neg h]

theorem frames_eq_of_instances {c d : Component} (hframe : c.frame = d.frame)
    (hinstance : ∀ branch, c.instance? branch = d.instance? branch) : c.frames = d.frames := by
  funext place
  cases place with
  | nil => exact congrArg some hframe
  | cons branch rest => rw [frames, frames, get?_cons, get?_cons, hinstance]

theorem frames_modifyItem (c : Component) (place : Place) (slot : Nat) (f : Item → Item) :
    (c.modifyItem place slot f).frames = c.frames := by
  refine frames_modify _ (fun d => frames_eq_of_instances ?_ fun branch => ?_) place c
  · simp only [frame, List.length_modify]
  · rfl

/-- Walks that pass through a repeater leave its instances alone. -/
theorem frames_modifyWalks (c : Component) (a : RepeaterAddress) (f : Nat → Nat) :
    (c.modifyRepeaterAt a fun r => { r with walks := f r.walks }).frames = c.frames := by
  refine frames_modify _ (fun d => frames_eq_of_instances ?_ fun branch => ?_) a.owner c
  · exact frame_modifyRepeater d a.slot _ fun _ => rfl
  · simp only [instance?, modifyRepeater, List.getElem?_modify]
    by_cases h : a.slot = branch.repeater
    · cases d.repeaters[branch.repeater]? <;> simp [h]
    · simp [h]

theorem item?_isSome_eq (c : Component) (place : Place) (slot : Nat) :
    (c.item? place slot).isSome = (c.frames place).any fun seen => slot < seen.items := by
  rw [item?, frames]
  cases c.get? place with
  | none => rfl
  | some owner => by_cases h : slot < owner.items.length <;> simp [frame, h]

theorem length_repeater? (c : Component) (a : RepeaterAddress) :
    (c.repeater? a).map Repeater.length =
      (c.frames a.owner).bind fun seen => seen.instances[a.slot]? := by
  rw [repeater?, frames]
  cases c.get? a.owner with
  | none => rfl
  | some owner => simp [frame]

end Component

end RetainedScene
