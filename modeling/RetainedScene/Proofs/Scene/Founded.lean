import RetainedScene.Proofs.Scene.Outline

/-!
# Trees without cycles

A walk of a component ends when children come after their parents, in the component itself and
in all that its dynamic nodes stand for. Then it is also known how deep the walk can go, and if
the children are inside the array too, it comes to no missing node.
-/

set_option autoImplicit false

namespace RetainedScene

namespace Component

/-- Each node names an item or a repeater that is there, and the spans of children end at 32-bit
    numbers. -/
structure Sound (c : Component) : Prop where
  item {index slot : Nat} {first count : UInt32} :
    c.tree[index]? = some (.item slot first count) → slot < c.items.length
  repeater {index slot : Nat} :
    c.tree[index]? = some (.dynamic slot) → slot < c.repeaters.length
  fits {index slot : Nat} {first count : UInt32} :
    c.tree[index]? = some (.item slot first count) → first.toNat + count.toNat < UInt32.size

/-- Children come after their parents. -/
structure Forward (c : Component) : Prop extends Sound c where
  after {index slot : Nat} {first count : UInt32} :
    c.tree[index]? = some (.item slot first count) → count ≠ 0 → index < first.toNat

/-- Moreover all children are there. -/
structure Founded (c : Component) : Prop extends Forward c where
  inside {index slot : Nat} {first count : UInt32} :
    c.tree[index]? = some (.item slot first count) → count ≠ 0 →
      first.toNat + count.toNat ≤ c.tree.length

def FoundedAt (c : Component) (index : Nat) : Node → Prop
  | .item slot first count =>
    slot < c.items.length ∧ first.toNat + count.toNat < UInt32.size ∧
      (count ≠ 0 → index < first.toNat ∧ first.toNat + count.toNat ≤ c.tree.length)
  | .dynamic slot => slot < c.repeaters.length

instance (c : Component) (index : Nat) : (node : Node) → Decidable (c.FoundedAt index node)
  | .item _ _ _ => inferInstanceAs (Decidable (_ ∧ _ ∧ _))
  | .dynamic _ => inferInstanceAs (Decidable (_ < _))

theorem founded_iff (c : Component) :
    c.Founded ↔ ∀ index : Fin c.tree.length, c.FoundedAt index c.tree[index] := by
  constructor
  · intro h index
    have hnode : c.tree[index.val]? = some c.tree[index] := List.getElem?_eq_getElem index.isLt
    cases hn : c.tree[index] with
    | item slot first count =>
      rw [hn] at hnode
      exact ⟨h.item hnode, h.fits hnode, fun hcount => ⟨h.after hnode hcount, h.inside hnode hcount⟩⟩
    | dynamic slot =>
      rw [hn] at hnode
      exact h.repeater hnode
  · intro h
    have at_node : ∀ {index node}, c.tree[index]? = some node → c.FoundedAt index node := by
      intro index node hnode
      obtain ⟨hlt, rfl⟩ := List.getElem?_eq_some_iff.mp hnode
      exact h ⟨index, hlt⟩
    exact {
      item := fun hnode => (at_node hnode).1
      repeater := fun hnode => at_node hnode
      fits := fun hnode => (at_node hnode).2.1
      after := fun hnode hcount => ((at_node hnode).2.2 hcount).1
      inside := fun hnode hcount => ((at_node hnode).2.2 hcount).2 }

instance (c : Component) : Decidable c.Founded :=
  decidable_of_iff _ c.founded_iff.symm

def ForwardAt (c : Component) (index : Nat) : Node → Prop
  | .item slot first count =>
    slot < c.items.length ∧ first.toNat + count.toNat < UInt32.size ∧
      (count ≠ 0 → index < first.toNat)
  | .dynamic slot => slot < c.repeaters.length

instance (c : Component) (index : Nat) : (node : Node) → Decidable (c.ForwardAt index node)
  | .item _ _ _ => inferInstanceAs (Decidable (_ ∧ _ ∧ _))
  | .dynamic _ => inferInstanceAs (Decidable (_ < _))

theorem forward_of_nodes {c : Component}
    (h : ∀ index : Fin c.tree.length, c.ForwardAt index c.tree[index]) : c.Forward := by
  have at_node : ∀ {index node}, c.tree[index]? = some node → c.ForwardAt index node := by
    intro index node hnode
    obtain ⟨hlt, rfl⟩ := List.getElem?_eq_some_iff.mp hnode
    exact h ⟨index, hlt⟩
  exact {
    item := fun hnode => (at_node hnode).1
    repeater := fun hnode => at_node hnode
    fits := fun hnode => (at_node hnode).2.1
    after := fun hnode hcount => (at_node hnode).2.2 hcount }

/-- A property of a component and of all instances that its dynamic nodes lead to, at any
    depth. -/
inductive Throughout (P : Component → Prop) : Component → Prop
  | intro {c : Component} (here : P c)
      (generated : ∀ {index slot : Nat} {r : Repeater Component} {d : Component},
        c.tree[index]? = some (.dynamic slot) → c.repeaters[slot]? = some r →
        d ∈ r.instances → Throughout P d) : Throughout P c

variable {P Q : Component → Prop}

theorem Throughout.here {c : Component} (h : c.Throughout P) : P c := by
  cases h
  assumption

theorem Throughout.generated {c : Component} (h : c.Throughout P) {index slot : Nat}
    {r : Repeater Component} {d : Component} (hnode : c.tree[index]? = some (.dynamic slot))
    (hr : c.repeaters[slot]? = some r) (hd : d ∈ r.instances) : d.Throughout P := by
  cases h with
  | intro _ generated => exact generated hnode hr hd

/-- It is enough that all instances have the property, led to or not. -/
theorem Throughout.of_all {c : Component} (here : P c)
    (h : ∀ r ∈ c.repeaters, ∀ d ∈ r.instances, d.Throughout P) : c.Throughout P :=
  .intro here fun _ hr hd => h _ (List.mem_of_getElem? hr) _ hd

theorem Throughout.imp (h : ∀ c, P c → Q c) {c : Component} (hc : c.Throughout P) :
    c.Throughout Q := by
  induction hc with
  | intro here _ ih => exact .intro (h _ here) ih

end Component

inductive Outline.Whole : Outline → Prop
  | item {place : Place} {index slot : Nat} {below : List Outline}
      (h : ∀ o ∈ below, Whole o) : Whole (.item place index slot below)
  | dynamic {place : Place} {index : Nat} {instances : List Outline}
      (h : ∀ o ∈ instances, Whole o) : Whole (.dynamic place index instances)

theorem Outline.whole_below {place : Place} {index slot : Nat} {below rest : List Outline}
    (h : ∀ o ∈ item place index slot below :: rest, o.Whole) : ∀ o ∈ below ++ rest, o.Whole := by
  intro o ho
  rcases List.mem_append.mp ho with ho | ho
  · cases h _ List.mem_cons_self with
    | item inner => exact inner o ho
  · exact h o (List.mem_cons_of_mem _ ho)

theorem Outline.whole_instances {place : Place} {index : Nat} {instances rest : List Outline}
    (h : ∀ o ∈ dynamic place index instances :: rest, o.Whole) :
    ∀ o ∈ instances ++ rest, o.Whole := by
  intro o ho
  rcases List.mem_append.mp ho with ho | ho
  · cases h _ List.mem_cons_self with
    | dynamic inner => exact inner o ho
  · exact h o (List.mem_cons_of_mem _ ho)

namespace Component

theorem mem_outlinesOf {c : Component} {place : Place} {slot : Nat} {o : Outline}
    (h : o ∈ c.outlinesOf place slot) : ∃ r d position, c.repeaters[slot]? = some r ∧
      d ∈ r.instances ∧ o ∈ d.roots ((⟨place, slot⟩ : RepeaterAddress).instancePlace position) := by
  rw [outlinesOf] at h
  split at h
  · simp at h
  · rename_i r hr
    obtain ⟨os, hos, ho⟩ := List.mem_flatten.mp h
    obtain ⟨position, hposition, rfl⟩ := List.mem_mapIdx.mp hos
    exact ⟨r, r.instances[position], position, hr, List.getElem_mem hposition, ho⟩

theorem mem_roots {c : Component} {place : Place} {o : Outline} (h : o ∈ c.roots place) :
    0 < c.tree.length ∧ o = c.outlineAt place 0 := by
  rw [roots_eq] at h
  cases ht : c.tree with
  | nil => simp [ht] at h
  | cons node rest => exact ⟨Nat.zero_lt_succ _, by simpa [ht] using h⟩

theorem whole_outlineAt {c : Component} (h : c.Throughout Founded) (place : Place) (index : Nat)
    (hindex : index < c.tree.length) : (c.outlineAt place index).Whole := by
  induction h generalizing place index with
  | @intro c here _ ih =>
    -- Later nodes first: the children of a node are among them.
    obtain ⟨rest, hrest⟩ : ∃ rest, rest = c.tree.length - index := ⟨_, rfl⟩
    induction rest using Nat.strongRecOn generalizing index with
    | ind rest later =>
      have hnode := List.getElem?_eq_getElem hindex
      cases hn : c.tree[index] with
      | item slot first count =>
        rw [hn] at hnode
        rw [outlineAt_item place hnode (here.after hnode)]
        refine .item fun o ho => ?_
        obtain ⟨child, hchild, rfl⟩ := List.mem_map.mp ho
        rw [List.mem_range'_1] at hchild
        have hcount : count ≠ 0 := by
          rintro rfl
          simp at hchild
          omega
        have hafter := here.after hnode hcount
        have hinside := here.inside hnode hcount
        exact later (c.tree.length - child) (by omega) child (by omega) rfl
      | dynamic slot =>
        rw [hn] at hnode
        rw [outlineAt_dynamic place hnode]
        refine .dynamic fun o ho => ?_
        obtain ⟨r, d, position, hr, hd, ho⟩ := mem_outlinesOf ho
        obtain ⟨hpos, rfl⟩ := mem_roots ho
        exact ih hnode hr hd _ 0 hpos

theorem whole_roots {c : Component} (h : c.Throughout Founded) (place : Place) :
    ∀ o ∈ c.roots place, o.Whole := by
  intro o ho
  obtain ⟨hpos, rfl⟩ := mem_roots ho
  exact whole_outlineAt h place 0 hpos

theorem size_eq (c : Component) : c.size = c.tree.length + 1 + sizeOfRepeaters c.repeaters := by
  cases c
  rfl

theorem size_le_sizeOfInstances {d : Component} {instances : List Component}
    (h : d ∈ instances) : d.size ≤ sizeOfInstances instances := by
  induction instances with
  | nil => simp at h
  | cons c rest ih =>
    rw [sizeOfInstances]
    rcases List.mem_cons.mp h with rfl | h
    · omega
    · have := ih h
      omega

theorem sizeOfInstances_le_sizeOfRepeaters {slot : Nat} {r : Repeater Component}
    {repeaters : List (Repeater Component)} (h : repeaters[slot]? = some r) :
    sizeOfInstances r.instances ≤ sizeOfRepeaters repeaters := by
  induction repeaters generalizing slot with
  | nil => simp at h
  | cons s rest ih =>
    rw [sizeOfRepeaters]
    cases slot with
    | zero =>
      obtain rfl : s = r := by simpa using h
      omega
    | succ slot =>
      have hrest : rest[slot]? = some r := by simpa using h
      have := ih hrest
      omega

/-- An instance is smaller than its owner by the owner's own nodes and one more. -/
theorem size_instance {c d : Component} {slot : Nat} {r : Repeater Component}
    (hr : c.repeaters[slot]? = some r) (hd : d ∈ r.instances) :
    d.size + c.tree.length + 1 ≤ c.size := by
  have h1 := size_le_sizeOfInstances hd
  have h2 := sizeOfInstances_le_sizeOfRepeaters hr
  rw [size_eq c]
  omega

theorem size_get? {root c : Component} {place : Place} (h : root.get? place = some c) :
    c.size ≤ root.size := by
  induction place generalizing root with
  | nil =>
    obtain rfl : root = c := by simpa [get?] using h
    exact Nat.le_refl _
  | cons branch rest ih =>
    rw [get?_cons] at h
    obtain ⟨d, hd, hc⟩ := Option.bind_eq_some_iff.mp h
    have hle := ih hc
    rw [instance?] at hd
    cases hr : root.repeaters[branch.repeater]? with
    | none => simp [hr] at hd
    | some r =>
      rw [hr] at hd
      have := size_instance hr (List.mem_of_getElem? hd)
      omega

end Component

end RetainedScene
