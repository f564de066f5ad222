import RetainedScene.Proofs.Scene.Frame

/-!
# Outlines

The outline of a node is the tree that a walk of it would follow: below an item the outlines of
its children in order, and for a dynamic node those of the roots of its instances, one after the
other. It is made from the last node of a component to the first, so that only children with
larger indices than their parents show up.
-/

set_option autoImplicit false

namespace RetainedScene

inductive Outline
  | item (place : Place) (index slot : Nat) (below : List Outline)
  | dynamic (place : Place) (index : Nat) (instances : List Outline)
  /-- A child past the end of the array. -/
  | missing (place : Place) (index : Nat)

namespace Outline

/-- Outlines of the nodes from number `index` on. -/
def ofTree (place : Place) (generated : Nat → List Outline) :
    (index : Nat) → List Node → List Outline
  | _, [] => []
  | index, .dynamic slot :: rest =>
    .dynamic place index (generated slot) :: ofTree place generated (index + 1) rest
  | index, .item slot first count :: rest =>
    let later := ofTree place generated (index + 1) rest
    .item place index slot ((List.range' first.toNat count.toNat).map fun child =>
      later[child - (index + 1)]?.getD (.missing place child)) :: later

theorem length_ofTree (place : Place) (generated : Nat → List Outline) (index : Nat)
    (tree : List Node) : (ofTree place generated index tree).length = tree.length := by
  induction tree generalizing index with
  | nil => rfl
  | cons node rest ih => cases node <;> simp [ofTree, ih]

theorem ofTree_dynamic (place : Place) (generated : Nat → List Outline) (from' index slot : Nat)
    (tree : List Node) (h : tree[index]? = some (.dynamic slot)) :
    (ofTree place generated from' tree)[index]? =
      some (.dynamic place (from' + index) (generated slot)) := by
  induction tree generalizing from' index with
  | nil => simp at h
  | cons node rest ih =>
    cases index with
    | zero =>
      obtain rfl : node = .dynamic slot := by simpa using h
      rfl
    | succ index =>
      have later := ih (from' + 1) index (by simpa using h)
      cases node <;> simpa [ofTree, Nat.add_assoc, Nat.add_comm 1] using later

theorem ofTree_item (place : Place) (generated : Nat → List Outline) (from' index slot : Nat)
    (first count : UInt32) (tree : List Node)
    (h : tree[index]? = some (.item slot first count))
    (forward : count ≠ 0 → from' + index < first.toNat) :
    (ofTree place generated from' tree)[index]? =
      some (.item place (from' + index) slot
        ((List.range' first.toNat count.toNat).map fun child =>
          (ofTree place generated from' tree)[child - from']?.getD (.missing place child))) := by
  induction tree generalizing from' index with
  | nil => simp at h
  | cons node rest ih =>
    -- A child is beyond the node, so that dropping a node before it moves it down by one.
    have shift : ∀ child ∈ List.range' first.toNat count.toNat,
        (ofTree place generated from' (node :: rest))[child - from']? =
          (ofTree place generated (from' + 1) rest)[child - (from' + 1)]? := by
      intro child hchild
      have hcount : count ≠ 0 := by
        rintro rfl
        simp at hchild
      have hlt := forward hcount
      have hle : first.toNat ≤ child := (List.mem_range'_1.mp hchild).1
      rw [show child - from' = child - (from' + 1) + 1 by omega]
      cases node <;> rfl
    rw [List.map_congr_left fun child hchild => by rw [shift child hchild]]
    cases index with
    | zero =>
      obtain rfl : node = .item slot first count := by simpa using h
      rfl
    | succ index =>
      have later := ih (from' + 1) index (by simpa using h) fun hcount => by
        have := forward hcount
        omega
      rw [show from' + (index + 1) = from' + 1 + index by omega, ← later]
      cases node <;> rfl

end Outline

namespace Component

mutual

def outlines (place : Place) : Component → List Outline
  | ⟨_, _, tree, repeaters⟩ =>
    let instances := generated place 0 repeaters
    Outline.ofTree place (fun slot => instances[slot]?.getD []) 0 tree

def generated (owner : Place) : (slot : Nat) → List (Repeater Component) → List (List Outline)
  | _, [] => []
  | slot, ⟨instances, _⟩ :: rest =>
    instanceRoots ⟨owner, slot⟩ 0 instances :: generated owner (slot + 1) rest

def instanceRoots (a : RepeaterAddress) : (position : Nat) → List Component → List Outline
  | _, [] => []
  | position, c :: rest =>
    (outlines (a.instancePlace position) c).take 1 ++ instanceRoots a (position + 1) rest

end

/-- What the walk of a component from its root comes to: node 0, if there is one. -/
def roots (c : Component) (place : Place) : List Outline :=
  (c.outlines place).take 1

def outlineAt (c : Component) (place : Place) (index : Nat) : Outline :=
  (c.outlines place)[index]?.getD (.missing place index)

theorem generated_getElem? (owner : Place) (from' slot : Nat)
    (repeaters : List (Repeater Component)) :
    (generated owner from' repeaters)[slot]? =
      repeaters[slot]?.map fun r => instanceRoots ⟨owner, from' + slot⟩ 0 r.instances := by
  induction repeaters generalizing from' slot with
  | nil => rfl
  | cons r rest ih =>
    cases slot with
    | zero => rfl
    | succ slot => simpa [generated, Nat.add_assoc, Nat.add_comm 1] using ih (from' + 1) slot

theorem instanceRoots_eq (a : RepeaterAddress) (from' : Nat) (instances : List Component) :
    instanceRoots a from' instances =
      (instances.mapIdx fun position d =>
        d.roots (a.instancePlace (from' + position))).flatten := by
  induction instances generalizing from' with
  | nil => rfl
  | cons d rest ih =>
    simp [instanceRoots, roots, ih, List.mapIdx_cons, Nat.add_assoc, Nat.add_comm 1]

def outlinesOf (c : Component) (place : Place) (slot : Nat) : List Outline :=
  match c.repeaters[slot]? with
  | none => []
  | some r => (r.instances.mapIdx fun position d =>
      d.roots ((⟨place, slot⟩ : RepeaterAddress).instancePlace position)).flatten

theorem outlinesOf_eq_flatMap {c : Component} {slot : Nat} {r : Repeater Component}
    (place : Place) (hr : c.repeaters[slot]? = some r) :
    c.outlinesOf place slot = (List.range' 0 r.length).flatMap fun position =>
      r.instances[position]?.elim [] fun d =>
        d.roots ((⟨place, slot⟩ : RepeaterAddress).instancePlace position) := by
  rw [outlinesOf, hr, List.flatMap_def]
  refine congrArg List.flatten (List.ext_getElem (by simp [Repeater.length]) fun k hk _ => ?_)
  have hlt : k < r.instances.length := by simpa using hk
  simp [List.getElem?_eq_getElem hlt]

theorem outlines_eq (c : Component) (place : Place) :
    c.outlines place = Outline.ofTree place (c.outlinesOf place) 0 c.tree := by
  cases c with
  | mk _ _ tree repeaters =>
    rw [outlines]
    congr 1
    funext slot
    rw [generated_getElem?, outlinesOf]
    cases repeaters[slot]? with
    | none => rfl
    | some r => simp [instanceRoots_eq]

theorem length_outlines (c : Component) (place : Place) :
    (c.outlines place).length = c.tree.length := by
  rw [outlines_eq, Outline.length_ofTree]

theorem roots_eq (c : Component) (place : Place) :
    c.roots place = if c.tree.isEmpty then [] else [c.outlineAt place 0] := by
  have h := c.length_outlines place
  cases ho : c.outlines place <;> cases ht : c.tree <;>
    simp_all [roots, outlineAt]

theorem outlineAt_item {c : Component} {index slot : Nat} {first count : UInt32} (place : Place)
    (h : c.tree[index]? = some (.item slot first count))
    (forward : count ≠ 0 → index < first.toNat) :
    c.outlineAt place index = .item place index slot
      ((List.range' first.toNat count.toNat).map (c.outlineAt place)) := by
  have at_index := Outline.ofTree_item place (c.outlinesOf place) 0 index slot first count
    c.tree h (by simpa using forward)
  rw [← outlines_eq] at at_index
  simp only [Nat.zero_add, Nat.sub_zero] at at_index
  rw [outlineAt, at_index, Option.getD_some]
  rfl

theorem outlineAt_dynamic {c : Component} {index slot : Nat} (place : Place)
    (h : c.tree[index]? = some (.dynamic slot)) :
    c.outlineAt place index = .dynamic place index (c.outlinesOf place slot) := by
  have at_index := Outline.ofTree_dynamic place (c.outlinesOf place) 0 index slot c.tree h
  rw [← outlines_eq, Nat.zero_add] at at_index
  rw [outlineAt, at_index, Option.getD_some]

theorem outlineAt_missing {c : Component} {index : Nat} (place : Place)
    (h : c.tree.length ≤ index) : c.outlineAt place index = .missing place index := by
  rw [outlineAt, List.getElem?_eq_none (by rw [length_outlines]; exact h), Option.getD_none]

end Component

end RetainedScene
