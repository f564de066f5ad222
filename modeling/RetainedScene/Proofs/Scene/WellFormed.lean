import Mathlib.Data.List.Nodup
import Mathlib.Data.List.Perm.Basic
import RetainedScene.Proofs.Scene.Founded

/-!
# Well-formed trees

The array of a well-formed tree holds each node once: the spans of children, put together, are all
nodes but the first, and each node is the child of an earlier one.
-/

set_option autoImplicit false

namespace RetainedScene

def Node.children : Node → List Nat
  | .item _ first count => List.range' first.toNat count.toNat
  | .dynamic _ => []

namespace Component

/-- Children of a node, which only item nodes have. -/
def children (c : Component) (index : Nat) : List Nat :=
  c.tree[index]?.elim [] Node.children

theorem children_item {c : Component} {index slot : Nat} {first count : UInt32}
    (h : c.tree[index]? = some (.item slot first count)) :
    c.children index = List.range' first.toNat count.toNat := by
  rw [children, h]
  rfl

theorem mem_children {c : Component} {index child : Nat} (h : child ∈ c.children index) :
    ∃ slot first count, c.tree[index]? = some (.item slot first count) ∧ count ≠ 0 ∧
      first.toNat ≤ child ∧ child < first.toNat + count.toNat := by
  rw [children] at h
  cases hnode : c.tree[index]? with
  | none => simp [hnode] at h
  | some node =>
    cases node with
    | dynamic slot => simp [hnode, Node.children] at h
    | item slot first count =>
      simp only [hnode, Option.elim_some, Node.children, List.mem_range'_1] at h
      refine ⟨slot, first, count, rfl, ?_, h⟩
      rintro rfl
      simp at h
      omega

theorem nodup_children (c : Component) (index : Nat) : (c.children index).Nodup := by
  rw [children]
  cases c.tree[index]? with
  | none => exact List.nodup_nil
  | some node =>
    cases node with
    | dynamic slot => exact List.nodup_nil
    | item slot first count => exact List.nodup_range'

/-- Node 0 is no child, and each other node is a child of exactly one node, which comes before
    it. All children are inside the array. -/
structure WellFormed (c : Component) : Prop extends Sound c where
  root (index : Nat) : 0 ∉ c.children index
  parent {child : Nat} : 0 < child → child < c.tree.length →
    ∃ index < child, child ∈ c.children index ∧ ∀ other, child ∈ c.children other → other = index
  inside {index child : Nat} : child ∈ c.children index → child < c.tree.length

theorem WellFormed.founded {c : Component} (h : c.WellFormed) : c.Founded where
  toSound := h.toSound
  after {index slot first count} hnode hcount := by
    have hpos : 0 < count.toNat := by
      rw [Nat.pos_iff_ne_zero]
      exact fun hzero => hcount (UInt32.toNat_inj.mp hzero)
    have hchild : first.toNat ∈ c.children index := by
      rw [children_item hnode, List.mem_range'_1]
      omega
    have hne : first.toNat ≠ 0 := fun hzero => h.root index (hzero ▸ hchild)
    obtain ⟨parent, hlt, -, hunique⟩ := h.parent (Nat.pos_of_ne_zero hne) (h.inside hchild)
    rw [hunique index hchild]
    exact hlt
  inside {index slot first count} hnode hcount := by
    have hpos : 0 < count.toNat := by
      rw [Nat.pos_iff_ne_zero]
      exact fun hzero => hcount (UInt32.toNat_inj.mp hzero)
    have hlast : first.toNat + count.toNat - 1 ∈ c.children index := by
      rw [children_item hnode, List.mem_range'_1]
      omega
    have := h.inside hlast
    omega

theorem wellFormed_iff (c : Component) : c.WellFormed ↔ c.Founded ∧
    ∀ child < c.tree.length, 0 < child → ∃ index < child, child ∈ c.children index ∧
      ∀ other < c.tree.length, child ∈ c.children other → other = index := by
  constructor
  · intro h
    refine ⟨h.founded, fun child hlt hpos => ?_⟩
    obtain ⟨index, hindex, hchild, hunique⟩ := h.parent hpos hlt
    exact ⟨index, hindex, hchild, fun other _ => hunique other⟩
  · rintro ⟨founded, hparent⟩
    refine ⟨founded.toSound, fun index hzero => ?_, fun {child} hpos hlt => ?_,
      fun {index child} hchild => ?_⟩
    · obtain ⟨slot, first, count, hnode, hcount, hle, -⟩ := mem_children hzero
      have := founded.after hnode hcount
      omega
    · obtain ⟨index, hindex, hchild, hunique⟩ := hparent child hlt hpos
      refine ⟨index, hindex, hchild, fun other hother => hunique other ?_ hother⟩
      obtain ⟨slot, first, count, hnode, -⟩ := mem_children hother
      exact (List.getElem?_eq_some_iff.mp hnode).choose
    · obtain ⟨slot, first, count, hnode, hcount, -, hlt⟩ := mem_children hchild
      have := founded.inside hnode hcount
      omega

instance (c : Component) : Decidable c.WellFormed :=
  decidable_of_iff _ c.wellFormed_iff.symm

/-- All spans together are the nodes but the first, each once. -/
theorem WellFormed.perm_children {c : Component} (h : c.WellFormed) :
    ((List.range c.tree.length).flatMap c.children).Perm
      (List.range' 1 (c.tree.length - 1)) := by
  have hnodup : ((List.range c.tree.length).flatMap c.children).Nodup := by
    rw [List.nodup_flatMap]
    refine ⟨fun index _ => c.nodup_children index, ?_⟩
    refine List.nodup_range.imp fun {a b} hne child ha hb => ?_
    have hpos : 0 < child := Nat.pos_of_ne_zero fun hzero => h.root a (hzero ▸ ha)
    obtain ⟨index, -, -, hunique⟩ := h.parent hpos (h.inside ha)
    exact hne ((hunique a ha).trans (hunique b hb).symm)
  refine (List.perm_ext_iff_of_nodup hnodup List.nodup_range').mpr fun child => ?_
  rw [List.mem_flatMap, List.mem_range'_1]
  constructor
  · rintro ⟨index, -, hchild⟩
    have hpos : 0 < child := Nat.pos_of_ne_zero fun hzero => h.root index (hzero ▸ hchild)
    have := h.inside hchild
    omega
  · rintro ⟨hpos, hlt⟩
    obtain ⟨index, hindex, hchild, -⟩ := h.parent hpos (by omega)
    exact ⟨index, List.mem_range.mpr (by omega), hchild⟩

/-- If what belongs to a node is its own and then what belongs to its children, then node 0 has
    what all nodes have of their own. -/
theorem WellFormed.perm_root {c : Component} (h : c.WellFormed) (hpos : 0 < c.tree.length)
    {α : Type} {whole own : Nat → List α} (hnode : ∀ index < c.tree.length,
      whole index = own index ++ (c.children index).flatMap whole) :
    (whole 0).Perm ((List.range c.tree.length).flatMap own) := by
  have hsplit : List.range c.tree.length = 0 :: List.range' 1 (c.tree.length - 1) := by
    rw [List.range_eq_range', show c.tree.length = c.tree.length - 1 + 1 by omega,
      List.range'_succ]
    rfl
  have hall : ((List.range c.tree.length).flatMap whole).Perm
      ((List.range c.tree.length).flatMap own ++
        (List.range' 1 (c.tree.length - 1)).flatMap whole) :=
    calc (List.range c.tree.length).flatMap whole
        = (List.range c.tree.length).flatMap fun index =>
            own index ++ (c.children index).flatMap whole :=
          List.flatMap_congr fun index hindex => hnode index (List.mem_range.mp hindex)
      List.Perm _ ((List.range c.tree.length).flatMap own ++
            (List.range c.tree.length).flatMap fun index => (c.children index).flatMap whole) :=
          (List.flatMap_append_perm ..).symm
      _ = (List.range c.tree.length).flatMap own ++
            ((List.range c.tree.length).flatMap c.children).flatMap whole := by
          rw [List.flatMap_assoc]
      List.Perm _ ((List.range c.tree.length).flatMap own ++
            (List.range' 1 (c.tree.length - 1)).flatMap whole) :=
          (h.perm_children.flatMap_right whole).append_left _
  -- The other nodes are what the children of all nodes are.
  rw [hsplit, List.flatMap_cons, ← hsplit] at hall
  exact (List.perm_append_right_iff _).mp hall

end Component

end RetainedScene
