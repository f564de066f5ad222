import Mathlib.Algebra.GroupWithZero.Nat
import RetainedScene.Proofs.Results
import RetainedScene.Proofs.Scene.Invariant
import RetainedScene.Proofs.Scene.Marks
import RetainedScene.Scene.Census

/-!
# Walks of well-formed trees

A walk of a well-formed tree whose visitor always goes on enters each node of the array once and
shows each item once. So the items of a component are counted from the item nodes of its own array
and the counts of its instances.
-/

set_option autoImplicit false

namespace RetainedScene

variable {μ : Type}

def Visitor.Descends (visitor : Visitor μ) : Prop :=
  ∀ memory s sight, (visitor memory s sight).action = .descend

namespace Visitor

theorem mover_leaves (offset : Vec2) : (mover offset).LeavesRepeaters := by
  intro memory s sight hitem edit hedit
  obtain rfl := List.mem_singleton.mp hedit
  rw [Edit.LeavesRepeaters, hitem]
  rfl

theorem mover_descends (offset : Vec2) : (mover offset).Descends :=
  fun _ _ _ => rfl

theorem counter_leaves : counter.LeavesRepeaters :=
  fun _ _ _ _ _ h => absurd h List.not_mem_nil

theorem counter_descends : counter.Descends :=
  fun _ _ _ => rfl

end Visitor

def Node.isItem : Node → Bool
  | .item _ _ _ => true
  | .dynamic _ => false

namespace Component

/-- Places of the instances that a node stands for. -/
def placesAt (c : Component) (place : Place) : Node → List Place
  | .item _ _ _ => []
  | .dynamic slot => (List.range' 0 (c.repeaters[slot]?.elim 0 Repeater.length)).map
      (⟨place, slot⟩ : RepeaterAddress).instancePlace

def instancePlaces (c : Component) (place : Place) : List Place :=
  c.tree.flatMap (c.placesAt place)

def shownAt (root : Component) (place : Place) : Nat :=
  (((root.get? place).elim [] (·.roots place)).flatMap Outline.marks).countP Mark.isShown

theorem shownAt_eq {root c : Component} {place : Place} (hplace : root.get? place = some c) :
    root.shownAt place = ((c.roots place).flatMap Outline.marks).countP Mark.isShown := by
  rw [shownAt, hplace, Option.elim_some]

theorem shown_outlinesOf {root c : Component} {place : Place} (hplace : root.get? place = some c)
    (slot : Nat) : ((c.outlinesOf place slot).flatMap Outline.marks).countP Mark.isShown =
      ((c.placesAt place (.dynamic slot)).map root.shownAt).sum := by
  rw [placesAt]
  cases hr : c.repeaters[slot]? with
  | none =>
    rw [outlinesOf, hr]
    rfl
  | some r =>
    rw [outlinesOf_eq_flatMap place hr, List.flatMap_assoc, List.countP_flatMap, List.map_map]
    refine congrArg List.sum (List.map_congr_left fun position _ => ?_)
    have hinstance : c.instance? ⟨slot, position⟩ = r.instances[position]? := by
      rw [instance?, hr]
    simp only [Function.comp_apply, shownAt,
      get?_instancePlace root c place slot position hplace, hinstance]

/-- Number of items that a node brings into the outline by itself. -/
def shownBy (root c : Component) (place : Place) (node : Node) : Nat :=
  (if node.isItem then 1 else 0) + ((c.placesAt place node).map root.shownAt).sum

theorem shown_ownMarks {root c : Component} {place : Place} (hplace : root.get? place = some c)
    {index : Nat} {node : Node} (hnode : c.tree[index]? = some node) :
    (c.ownMarks place index).countP Mark.isShown = root.shownBy c place node := by
  rw [ownMarks, hnode]
  cases node with
  | item slot first count => rfl
  | dynamic slot =>
    rw [shownBy, ← shown_outlinesOf hplace, Node.isItem, if_neg Bool.false_ne_true, Nat.zero_add]
    exact List.countP_cons_of_neg Bool.false_ne_true

theorem sum_shownBy (root c : Component) (place : Place) (nodes : List Node) :
    (nodes.map (root.shownBy c place)).sum =
      nodes.countP Node.isItem + ((nodes.flatMap (c.placesAt place)).map root.shownAt).sum := by
  induction nodes with
  | nil => rfl
  | cons node rest ih =>
    rw [List.map_cons, List.sum_cons, ih, shownBy, List.countP_cons, List.flatMap_cons,
      List.map_append, List.sum_append]
    omega

theorem shownAt_wellFormed {root c : Component} {place : Place}
    (hplace : root.get? place = some c) (h : c.WellFormed) :
    root.shownAt place = c.tree.countP Node.isItem +
      ((c.instancePlaces place).map root.shownAt).sum := by
  have hrange : (List.range c.tree.length).map (fun index =>
      (c.ownMarks place index).countP Mark.isShown) = c.tree.map (root.shownBy c place) := by
    refine List.ext_getElem (by simp) fun index hindex _ => ?_
    have hlt : index < c.tree.length := by simpa using hindex
    rw [List.getElem_map, List.getElem_map, List.getElem_range]
    exact shown_ownMarks hplace (List.getElem?_eq_getElem hlt)
  rw [shownAt_eq hplace, (perm_marks h place).countP_eq, List.countP_flatMap, instancePlaces,
    ← sum_shownBy, ← hrange]
  rfl

end Component

namespace Scene

variable {s : Scene} {place : Place} {c : Component} {visitor : Visitor μ} {depth : Nat}

def marks (s : Scene) (visitor : Visitor μ) (depth : Nat) (place : Place) (start : Start)
    (memory : μ) : List Mark :=
  (s.trace visitor depth place start memory).events.map Event.mark

/-- What is true of each answer of a visitor is true of the calls of its walks. -/
theorem trace_calls {P : Call → Prop}
    (h : ∀ memory t sight, P ⟨t, sight, (visitor memory t sight).action⟩) (s : Scene)
    (depth : Nat) (place : Place) (start : Start) (memory : μ) :
    ∀ call ∈ (s.trace visitor depth place start memory).calls, P call := by
  have hall : ∀ call ∈ (s.trace visitor depth place start memory).walk.memory.events.filterMap
      Event.call?, P call := by
    refine s.trace_memory visitor depth place start memory
      (J := fun traced => ∀ call ∈ traced.events.filterMap Event.call?, P call)
      (fun _ hcall => absurd hcall List.not_mem_nil) (fun _ _ _ htraced => htraced)
      fun traced t sight htraced call hcall => ?_
    rcases List.mem_cons.mp hcall with rfl | hcall
    · exact h traced.memory t sight
    · exact htraced call hcall
  intro call hcall
  rw [Walk.Outcome.calls, Walk.Outcome.events, List.filterMap_reverse, List.mem_reverse] at hcall
  exact hall call hcall

/-- The walk of a visitor that always goes on leaves the marks of the whole outline. -/
theorem marks_eq (memory : μ) (hplace : s.root.get? place = some c)
    (hc : c.Throughout Component.WellFormed) (leaves : visitor.LeavesRepeaters)
    (descends : visitor.Descends) (hdepth : c.size ≤ depth) :
    (s.walk visitor depth place .root memory).ending = .completed ∧
      s.marks visitor depth place .root memory = (c.roots place).flatMap Outline.marks := by
  have founded := hc.imp fun _ h => h.founded
  have hcourse := trace_course memory hplace (founded.imp fun _ h => h.toForward) leaves hdepth
  rw [← s.trace_untraced visitor depth place .root memory]
  exact hcourse.marks_eq (Component.whole_roots founded place)
    (trace_calls (P := fun call => call.action = .descend) descends s depth place .root memory)

theorem counter_eq (s : Scene) (depth : Nat) (place : Place) (start : Start) :
    (s.walk .counter depth place start 0).walk.memory =
      (s.marks .counter depth place start 0).countP Mark.isShown := by
  rw [← s.trace_untraced .counter depth place start 0, marks, List.countP_map,
    Walk.Outcome.events, List.countP_reverse]
  refine s.trace_memory .counter depth place start 0
    (J := fun traced => traced.memory = traced.events.countP (Mark.isShown ∘ Event.mark)) rfl
    (fun _ _ _ htraced => htraced) fun traced t sight htraced => ?_
  exact (congrArg (· + 1) htraced).trans (List.countP_cons_of_pos rfl).symm

theorem itemCount_eq (hplace : s.root.get? place = some c)
    (hc : c.Throughout Component.WellFormed) :
    s.itemCount place = .ok (s.root.shownAt place) := by
  obtain ⟨hending, hmarks⟩ := marks_eq 0 hplace hc Visitor.counter_leaves
    Visitor.counter_descends (Component.size_get? hplace)
  have hcount := s.counter_eq s.depth place .root
  rw [itemCount, Walk.Outcome.memory?, depth, hending]
  rw [depth, hmarks, ← Component.shownAt_eq hplace] at hcount
  exact congrArg _ hcount

theorem of_mem_instancePlaces (hplace : s.root.get? place = some c)
    (hc : c.Throughout Component.WellFormed) {p : Place} (hp : p ∈ c.instancePlaces place) :
    ∃ d, s.root.get? p = some d ∧ d.Throughout Component.WellFormed := by
  obtain ⟨node, hnode, hp⟩ := List.mem_flatMap.mp hp
  obtain ⟨index, hindex⟩ := List.mem_iff_getElem?.mp hnode
  cases node with
  | item slot first count => simp [Component.placesAt] at hp
  | dynamic slot =>
    obtain ⟨position, hposition, rfl⟩ := List.mem_map.mp hp
    have hr := List.getElem?_eq_getElem (hc.here.repeater hindex)
    rw [hr, Option.elim_some, List.mem_range'_1, Nat.zero_add] at hposition
    have hd := List.getElem?_eq_getElem hposition.2
    refine ⟨_, ?_, hc.generated hindex hr (List.mem_of_getElem? hd)⟩
    rw [Component.get?_instancePlace s.root c place slot position hplace]
    exact Component.instance?_eq_some hr hd

structure CoversTree (s : Scene) (place : Place) (c : Component) (visitor : Visitor μ)
    (depth : Nat) (memory : μ) : Prop where
  /-- The marks are those of the walk. -/
  traced : (s.trace visitor depth place .root memory).withMemory Traced.memory =
    s.walk visitor depth place .root memory
  completed : (s.walk visitor depth place .root memory).ending = .completed
  entered_once (index : Nat) : index < c.tree.length →
    (s.marks visitor depth place .root memory).count (.entered place index) = 1
  shown_once (index slot : Nat) (first count : UInt32) :
    c.tree[index]? = some (.item slot first count) →
      (s.marks visitor depth place .root memory).count (.shown place index slot) = 1
  itemCount : ∃ counts, (c.instancePlaces place).mapM s.itemCount = .ok counts ∧
    s.itemCount place = .ok (c.tree.countP Node.isItem + counts.sum)

theorem coversTree_of_wellFormed (s : Scene) (place : Place) (c : Component)
    (visitor : Visitor μ) (depth : Nat) (memory : μ) (hplace : s.root.get? place = some c)
    (hc : c.Throughout Component.WellFormed) (leaves : visitor.LeavesRepeaters)
    (descends : visitor.Descends) (hdepth : c.size ≤ depth) :
    s.CoversTree place c visitor depth memory := by
  obtain ⟨hending, hmarks⟩ := marks_eq memory hplace hc leaves descends hdepth
  refine ⟨s.trace_untraced visitor depth place .root memory, hending, ?_, ?_, ?_⟩
  · intro index hindex
    rw [hmarks]
    refine Component.count_marks hc rfl hindex ?_
    have hnode := List.getElem?_eq_getElem hindex
    rw [Component.staticMarks, hnode]
    cases c.tree[index] <;> exact List.mem_cons_self
  · intro index slot first count hnode
    rw [hmarks]
    refine Component.count_marks hc rfl (List.getElem?_eq_some_iff.mp hnode).choose ?_
    rw [Component.staticMarks, hnode]
    exact List.mem_cons_of_mem _ List.mem_cons_self
  · refine ⟨(c.instancePlaces place).map s.root.shownAt, mapM_ok fun p hp => ?_, ?_⟩
    · obtain ⟨d, hd, hthroughout⟩ := of_mem_instancePlaces hplace hc hp
      exact itemCount_eq hd hthroughout
    · rw [itemCount_eq hplace hc, Component.shownAt_wellFormed hplace hc.here]

theorem panel_wellFormed : panel.Throughout Component.WellFormed := by
  refine .of_all (by decide) ?_
  simp only [panel, forall_eq, List.mem_cons, List.not_mem_nil, or_false,
    forall_eq_or_imp]
  exact ⟨.of_all (by decide) (by simp [row]), .of_all (by decide) (by simp [row])⟩

theorem panel_coversTree :
    (⟨.white, panel⟩ : Scene).root.get? [] = some panel ∧ panel.Throughout Component.WellFormed ∧
      (Visitor.mover ⟨1, 2⟩).LeavesRepeaters ∧ (Visitor.mover ⟨1, 2⟩).Descends ∧
      panel.size ≤ 12 ∧
      (⟨.white, panel⟩ : Scene).CoversTree [] panel (.mover ⟨1, 2⟩) 12 [] ∧
      (⟨.white, panel⟩ : Scene).itemCount [] = .ok (4 + [2, 2].sum) :=
  ⟨rfl, panel_wellFormed, Visitor.mover_leaves ⟨1, 2⟩, Visitor.mover_descends ⟨1, 2⟩, by decide,
    coversTree_of_wellFormed ⟨.white, panel⟩ [] panel (.mover ⟨1, 2⟩) 12 [] rfl panel_wellFormed
      (Visitor.mover_leaves ⟨1, 2⟩) (Visitor.mover_descends ⟨1, 2⟩) (by decide), rfl⟩

end Scene

end RetainedScene
