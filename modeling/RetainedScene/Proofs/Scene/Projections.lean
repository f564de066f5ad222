import RetainedScene.Proofs.Scene.Marks
import RetainedScene.Proofs.Scene.Relocation

/-!
# What nodes project

An item node projects the item that it names, and a dynamic node those of the nodes of its
instances. In a well-formed tree all that the nodes project is shown by the walk from the root,
each as often as it is projected.
-/

set_option autoImplicit false

namespace RetainedScene

def Mark.site? : Mark → Option Site
  | entered _ _ => none
  | shown place _ slot => some ⟨place, slot⟩

namespace Component

mutual

/-- Sites of the items that the nodes of a component project. -/
def projections (place : Place) : Component → List Site
  | ⟨_, _, tree, repeaters⟩ =>
    let generated := projectionsOfRepeaters place 0 repeaters
    tree.flatMap fun
      | .item slot _ _ => [⟨place, slot⟩]
      | .dynamic slot => generated[slot]?.getD []

def projectionsOfRepeaters (owner : Place) :
    (slot : Nat) → List (Repeater Component) → List (List Site)
  | _, [] => []
  | slot, ⟨instances, _⟩ :: rest =>
    projectionsOfInstances ⟨owner, slot⟩ 0 instances ::
      projectionsOfRepeaters owner (slot + 1) rest

def projectionsOfInstances (a : RepeaterAddress) : (position : Nat) → List Component → List Site
  | _, [] => []
  | position, c :: rest =>
    projections (a.instancePlace position) c ++ projectionsOfInstances a (position + 1) rest

end

theorem projectionsOfRepeaters_getElem? (owner : Place) (from' slot : Nat)
    (repeaters : List (Repeater Component)) :
    (projectionsOfRepeaters owner from' repeaters)[slot]? =
      repeaters[slot]?.map fun r => projectionsOfInstances ⟨owner, from' + slot⟩ 0 r.instances := by
  induction repeaters generalizing from' slot with
  | nil => rfl
  | cons r rest ih =>
    cases slot with
    | zero => rfl
    | succ slot =>
      simpa [projectionsOfRepeaters, Nat.add_assoc, Nat.add_comm 1] using ih (from' + 1) slot

theorem projectionsOfInstances_eq (a : RepeaterAddress) (from' : Nat)
    (instances : List Component) : projectionsOfInstances a from' instances =
      (List.range' from' instances.length).flatMap fun position =>
        instances[position - from']?.elim [] (projections (a.instancePlace position)) := by
  induction instances generalizing from' with
  | nil => rfl
  | cons d rest ih =>
    rw [projectionsOfInstances, ih, List.length_cons, List.range'_succ, List.flatMap_cons,
      Nat.sub_self]
    refine congrArg _ (List.flatMap_congr fun position hposition => ?_)
    have hlt : from' + 1 ≤ position := (List.mem_range'_1.mp hposition).1
    rw [show position - from' = position - (from' + 1) + 1 by omega, List.getElem?_cons_succ]

/-- What a node projects. -/
def projectionsAt (c : Component) (place : Place) : Node → List Site
  | .item slot _ _ => [⟨place, slot⟩]
  | .dynamic slot => c.repeaters[slot]?.elim [] fun r =>
    (List.range' 0 r.length).flatMap fun position =>
      r.instances[position]?.elim []
        (projections ((⟨place, slot⟩ : RepeaterAddress).instancePlace position))

theorem projections_eq (c : Component) (place : Place) :
    c.projections place = c.tree.flatMap (c.projectionsAt place) := by
  cases c with
  | mk _ _ tree repeaters =>
    rw [projections]
    refine List.flatMap_congr fun node _ => ?_
    cases node with
    | item slot first count => rfl
    | dynamic slot =>
      simp only [projectionsOfRepeaters_getElem?, projectionsAt, projectionsOfInstances_eq]
      cases repeaters[slot]? <;> simp [Repeater.length]

theorem projections_eq_range (c : Component) (place : Place) :
    c.projections place = (List.range c.tree.length).flatMap fun index =>
      c.tree[index]?.elim [] (c.projectionsAt place) := by
  rw [projections_eq, List.flatMap_def, List.flatMap_def]
  refine congrArg List.flatten (List.ext_getElem (by simp) fun index hindex _ => ?_)
  have hlt : index < c.tree.length := by simpa using hindex
  simp [List.getElem?_eq_getElem hlt]

/-- The walk from the root shows what is projected. -/
theorem perm_projections {c : Component} (h : c.Throughout WellFormed) (place : Place) :
    (((c.roots place).flatMap Outline.marks).filterMap Mark.site?).Perm (c.projections place) := by
  induction h generalizing place with
  | @intro c here _ ih =>
    rw [projections_eq_range]
    refine ((perm_marks here place).filterMap _).trans ?_
    rw [List.filterMap_flatMap]
    refine .flatMap_left _ fun index _ => ?_
    rw [ownMarks]
    cases hnode : c.tree[index]? with
    | none => exact .nil
    | some node =>
      cases node with
      | item slot first count => exact .refl _
      | dynamic slot =>
        change (((c.outlinesOf place slot).flatMap Outline.marks).filterMap Mark.site?).Perm _
        rw [Option.elim_some, projectionsAt]
        cases hr : c.repeaters[slot]? with
        | none => simp [outlinesOf, hr]
        | some r =>
          rw [outlinesOf_eq_flatMap place hr, List.flatMap_assoc, List.filterMap_flatMap]
          refine .flatMap_left _ fun position _ => ?_
          cases hd : r.instances[position]? with
          | none => exact .nil
          | some d => exact ih hnode hr (List.mem_of_getElem? hd) _

end Component

end RetainedScene
