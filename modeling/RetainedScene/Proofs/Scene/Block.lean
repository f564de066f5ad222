import RetainedScene.Proofs.Scene.Coverage
import RetainedScene.Proofs.Scene.Starts

/-!
# The block below an item

In the walk of a well-formed tree what lies below an item is shown in one piece, directly after the
item. It is what a walk of the children of the item shows, and a walk that skips these children
shows the rest.
-/

set_option autoImplicit false

namespace RetainedScene

variable {μ ν ξ : Type}

/-- The answer that leaves out what lies below one node. -/
def Action.pruning (place : Place) (index : Nat) (p : Place) (i : Nat) : Action :=
  if p = place ∧ i = index then .skipChildren else .descend

namespace Action

variable {place p : Place} {index i : Nat}

theorem pruning_eq_skipChildren :
    pruning place index p i = .skipChildren ↔ p = place ∧ i = index := by
  rw [pruning]
  split <;> simp_all

theorem pruning_eq_descend : pruning place index p i = .descend ↔ ¬ (p = place ∧ i = index) := by
  rw [pruning]
  split <;> simp_all

theorem pruning_ne_abort : pruning place index p i ≠ .abort := by
  rw [pruning]
  split <;> exact Action.noConfusion

end Action

def Call.Prunes (call : Call) (place : Place) (index : Nat) : Prop :=
  call.action = .pruning place index call.sight.place call.sight.index

theorem Call.Prunes.eq {call : Call} {place p : Place} {index i slot : Nat}
    (h : call.Prunes place index) (shows : call.Shows p i slot) :
    call.action = .pruning place index p i := by
  obtain ⟨rfl, rfl, -, -⟩ := shows
  exact h

def Visitor.Prunes (visitor : Visitor μ) (place : Place) (index : Nat) : Prop :=
  ∀ memory s sight, (visitor memory s sight).action =
    .pruning place index sight.place sight.index

namespace Visitor

def pruner (place : Place) (index : Nat) : Visitor Unit := fun _ _ sight =>
  ⟨(), [], .pruning place index sight.place sight.index⟩

theorem pruner_leaves (place : Place) (index : Nat) : (pruner place index).LeavesRepeaters :=
  fun _ _ _ _ _ h => absurd h List.not_mem_nil

theorem pruner_prunes (place : Place) (index : Nat) : (pruner place index).Prunes place index :=
  fun _ _ _ => rfl

end Visitor

namespace Course

variable {root c : Component} {os : List Outline} {events : List Event} {ending : Ending}
  {place : Place} {index slot : Nat} {first count : UInt32}

theorem descends_of_absent (h : Course os events ending)
    (prunes : ∀ call ∈ events.filterMap Event.call?, call.Prunes place index)
    (absent : .entered place index ∉ os.flatMap Outline.marks) :
    ∀ call ∈ events.filterMap Event.call?, call.action = .descend := by
  induction h with
  | done => simp
  | missing => simp [Event.call?]
  | dynamic _ ih =>
    rw [List.flatMap_cons, Outline.marks_dynamic] at absent
    rw [List.flatMap_append] at ih
    exact ih prunes fun hmem => absent (.tail _ hmem)
  | descend _ answer _ ih =>
    rw [List.flatMap_cons, Outline.marks_item] at absent
    rw [List.flatMap_append] at ih
    obtain ⟨-, later⟩ := List.forall_mem_cons.mp prunes
    exact List.forall_mem_cons.mpr ⟨answer, ih later fun hmem => absent (.tail _ (.tail _ hmem))⟩
  | skip shows answer _ _ =>
    have hpruned := ((prunes _ List.mem_cons_self).eq shows).symm.trans answer
    obtain ⟨rfl, rfl⟩ := Action.pruning_eq_skipChildren.mp hpruned
    rw [List.flatMap_cons, Outline.marks_item] at absent
    exact absurd List.mem_cons_self absent
  | abort shows answer =>
    exact absurd (((prunes _ List.mem_cons_self).eq shows).symm.trans answer)
      Action.pruning_ne_abort

/-- The marks of a walk that leaves out what lies below one node, beside those of the outlines. -/
theorem pruned (h : Course os events ending) (whole : ∀ o ∈ os, o.Whole)
    (located : ∀ o ∈ os, o.All (Outline.Located root)) (hplace : root.get? place = some c)
    (hforward : c.Forward) (hnode : c.tree[index]? = some (.item slot first count))
    (prunes : ∀ call ∈ events.filterMap Event.call?, call.Prunes place index)
    (once : (os.flatMap Outline.marks).count (.entered place index) = 1) :
    ending = .completed ∧ ∃ before after,
      os.flatMap Outline.marks = before ++ .shown place index slot ::
        (((List.range' first.toNat count.toNat).map (c.outlineAt place)).flatMap Outline.marks ++
          after) ∧
      events.map Event.mark = before ++ .shown place index slot :: after := by
  have node_eq {o : Outline} (ho : o.Located root) (hp : o.place = place) (hi : o.index = index) :
      o = .item place index slot
        ((List.range' first.toNat count.toNat).map (c.outlineAt place)) := by
    rw [← Component.outlineAt_item place hnode (hforward.after hnode), ← hp, ← hi]
    exact Component.eq_outlineAt ho (hp ▸ hplace)
  induction h with
  | done => simp at once
  | missing => cases whole _ List.mem_cons_self
  | @dynamic p i instances rest events ending _ ih =>
    have hne : Mark.entered p i ≠ .entered place index := by
      rintro ⟨⟩
      exact Outline.noConfusion (node_eq (located _ List.mem_cons_self).here rfl rfl)
    rw [List.flatMap_cons, Outline.marks_dynamic, List.cons_append,
      List.count_cons_of_ne hne, ← List.flatMap_append] at once
    obtain ⟨hending, before, after, hall, hevents⟩ :=
      ih (Outline.whole_instances whole) (Outline.all_instances located) prunes once
    refine ⟨hending, .entered p i :: before, after, ?_, congrArg (Mark.entered p i :: ·) hevents⟩
    rw [List.flatMap_cons, Outline.marks_dynamic, List.cons_append, ← List.flatMap_append, hall]
    rfl
  | @descend p i slot' below rest call events ending shows answer _ ih =>
    have hne : Mark.entered p i ≠ .entered place index := by
      rintro ⟨⟩
      exact Action.pruning_eq_descend.mp
        (((prunes _ List.mem_cons_self).eq shows).symm.trans answer) ⟨rfl, rfl⟩
    rw [List.flatMap_cons, Outline.marks_item, List.append_assoc, List.cons_append,
      List.count_cons_of_ne hne, List.cons_append, List.count_cons_of_ne Mark.noConfusion,
      List.nil_append, ← List.flatMap_append] at once
    obtain ⟨hending, before, after, hall, hevents⟩ := ih (Outline.whole_below whole)
      (Outline.all_below located) (List.forall_mem_cons.mp prunes).2 once
    refine ⟨hending, .entered p i :: .shown p i slot' :: before, after, ?_, ?_⟩
    · rw [List.flatMap_cons, Outline.marks_item, List.append_assoc, ← List.flatMap_append, hall]
      rfl
    · rw [List.map_cons, List.map_cons, shows.mark, hevents]
      rfl
  | @skip p i slot' below rest call events ending shows answer h _ =>
    obtain ⟨rfl, rfl⟩ := Action.pruning_eq_skipChildren.mp
      (((prunes _ List.mem_cons_self).eq shows).symm.trans answer)
    cases node_eq (located _ List.mem_cons_self).here rfl rfl
    -- The node is met here, so all that comes later is walked in full.
    rw [List.flatMap_cons, Outline.marks_item, List.append_assoc, List.cons_append,
      List.count_cons_self, Nat.add_eq_right, List.count_eq_zero] at once
    have descends := h.descends_of_absent (List.forall_mem_cons.mp prunes).2
      fun hmem => once (List.mem_append_right _ (List.mem_append_right _ hmem))
    obtain ⟨hending, hmarks⟩ := h.marks_eq (fun o ho => whole o (.tail _ ho)) descends
    refine ⟨hending, [.entered p i], rest.flatMap Outline.marks, ?_, ?_⟩
    · rw [List.flatMap_cons, Outline.marks_item, List.append_assoc]
      rfl
    · rw [List.map_cons, List.map_cons, shows.mark, hmarks]
      rfl
  | abort shows answer =>
    exact absurd (((prunes _ List.mem_cons_self).eq shows).symm.trans answer)
      Action.pruning_ne_abort

end Course

namespace Scene

variable {s : Scene} {place : Place} {c : Component} {depth index slot : Nat}
  {first count : UInt32}

/-- Which items a walk shows, in the order in which it does. -/
def shown (s : Scene) (visitor : Visitor μ) (depth : Nat) (place : Place) (start : Start)
    (memory : μ) : List Mark :=
  (s.marks visitor depth place start memory).filter Mark.isShown

theorem marks_childrenOf {visitor : Visitor μ} (memory : μ) (hplace : s.root.get? place = some c)
    (hc : c.Throughout Component.WellFormed) (leaves : visitor.LeavesRepeaters)
    (descends : visitor.Descends) (hdepth : c.size ≤ depth)
    (hnode : c.tree[index]? = some (.item slot first count)) :
    (s.walk visitor depth place (.childrenOf index) memory).ending = .completed ∧
      s.marks visitor depth place (.childrenOf index) memory =
        ((List.range' first.toNat count.toNat).map (c.outlineAt place)).flatMap Outline.marks := by
  have founded := hc.imp fun _ h => h.founded
  have hos := Component.begins_childrenOf place hnode
  have hcourse := trace_begins memory hplace (founded.imp fun _ h => h.toForward) leaves hdepth hos
  rw [← s.trace_untraced visitor depth place (.childrenOf index) memory]
  exact hcourse.marks_eq (Component.begins_whole founded hos)
    (trace_calls (P := fun call => call.action = .descend) descends s depth place
      (.childrenOf index) memory)

theorem marks_pruned {visitor : Visitor μ} (memory : μ) (hplace : s.root.get? place = some c)
    (hc : c.Throughout Component.WellFormed) (leaves : visitor.LeavesRepeaters)
    (prunes : visitor.Prunes place index) (hdepth : c.size ≤ depth)
    (hnode : c.tree[index]? = some (.item slot first count)) :
    (s.walk visitor depth place .root memory).ending = .completed ∧ ∃ before after,
      (c.roots place).flatMap Outline.marks = before ++ .shown place index slot ::
        (((List.range' first.toNat count.toNat).map (c.outlineAt place)).flatMap Outline.marks ++
          after) ∧
      s.marks visitor depth place .root memory = before ++ .shown place index slot :: after := by
  have founded := hc.imp fun _ h => h.founded
  have forward := founded.imp fun _ h => h.toForward
  have once : ((c.roots place).flatMap Outline.marks).count (.entered place index) = 1 := by
    refine Component.count_marks hc rfl (List.getElem?_eq_some_iff.mp hnode).choose ?_
    rw [Component.staticMarks, hnode]
    exact List.mem_cons_self
  rw [← s.trace_untraced visitor depth place .root memory]
  exact (trace_course memory hplace forward leaves hdepth).pruned
    (Component.whole_roots founded place)
    (Component.begins_located hplace forward (c.begins_root place)) hplace forward.here hnode
    (trace_calls (P := (·.Prunes place index)) prunes s depth place .root memory) once

/-- `walker` and `starter` always go on, from the root and below the item, and `pruner` is not to
    see what lies below the item. -/
structure BlockBelow (s : Scene) (place : Place) (index slot : Nat) (walker : Visitor μ)
    (starter : Visitor ν) (pruner : Visitor ξ) (depth : Nat) (m : μ) (n : ν) (x : ξ) : Prop where
  walker_completed : (s.walk walker depth place .root m).ending = .completed
  starter_completed : (s.walk starter depth place (.childrenOf index) n).ending = .completed
  pruner_completed : (s.walk pruner depth place .root x).ending = .completed
  block : ∃ before after,
    s.shown walker depth place .root m = before ++ .shown place index slot ::
      (s.shown starter depth place (.childrenOf index) n ++ after) ∧
    s.shown pruner depth place .root x = before ++ .shown place index slot :: after ∧
    .shown place index slot ∉ before ∧
    .shown place index slot ∉ s.shown starter depth place (.childrenOf index) n ∧
    .shown place index slot ∉ after

theorem blockBelow_of_wellFormed (s : Scene) (place : Place) (c : Component) (index slot : Nat)
    (first count : UInt32) (walker : Visitor μ) (starter : Visitor ν) (pruner : Visitor ξ)
    (depth : Nat) (m : μ) (n : ν) (x : ξ) (hplace : s.root.get? place = some c)
    (hc : c.Throughout Component.WellFormed)
    (hnode : c.tree[index]? = some (.item slot first count))
    (walker_leaves : walker.LeavesRepeaters) (walker_descends : walker.Descends)
    (starter_leaves : starter.LeavesRepeaters) (starter_descends : starter.Descends)
    (pruner_leaves : pruner.LeavesRepeaters) (prunes : pruner.Prunes place index)
    (hdepth : c.size ≤ depth) :
    s.BlockBelow place index slot walker starter pruner depth m n x := by
  obtain ⟨hwalker, hall⟩ := marks_eq m hplace hc walker_leaves walker_descends hdepth
  obtain ⟨hstarter, hbelow⟩ :=
    marks_childrenOf n hplace hc starter_leaves starter_descends hdepth hnode
  obtain ⟨hpruner, before, after, hsplit, hpruned⟩ :=
    marks_pruned x hplace hc pruner_leaves prunes hdepth hnode
  rw [← hall, ← hbelow] at hsplit
  have once : (s.marks walker depth place .root m).count (.shown place index slot) = 1 := by
    rw [hall]
    refine Component.count_marks hc rfl (List.getElem?_eq_some_iff.mp hnode).choose ?_
    rw [Component.staticMarks, hnode]
    exact List.mem_cons_of_mem _ List.mem_cons_self
  rw [hsplit, List.count_append, List.count_cons_self, List.count_append] at once
  have absent {marks : List Mark} (h : marks.count (.shown place index slot) = 0) :
      .shown place index slot ∉ marks.filter Mark.isShown :=
    fun hmem => List.count_eq_zero.mp h (List.mem_filter.mp hmem).1
  refine ⟨hwalker, hstarter, hpruner, before.filter Mark.isShown, after.filter Mark.isShown,
    ?_, ?_, absent (by omega), absent (by omega), absent (by omega)⟩
  · rw [shown, hsplit, List.filter_append, List.filter_cons_of_pos rfl, List.filter_append, shown]
  · rw [shown, hpruned, List.filter_append, List.filter_cons_of_pos rfl]

theorem panel_blockBelow :
    (⟨.white, panel⟩ : Scene).root.get? [] = some panel ∧ panel.Throughout Component.WellFormed ∧
      panel.tree[1]? = some (.item 1 4 1) ∧ (Visitor.mover ⟨1, 2⟩).LeavesRepeaters ∧
      (Visitor.mover ⟨1, 2⟩).Descends ∧ Visitor.counter.LeavesRepeaters ∧
      Visitor.counter.Descends ∧ (Visitor.pruner [] 1).LeavesRepeaters ∧
      (Visitor.pruner [] 1).Prunes [] 1 ∧ panel.size ≤ 12 ∧
      (⟨.white, panel⟩ : Scene).BlockBelow [] 1 1 (.mover ⟨1, 2⟩) .counter (.pruner [] 1) 12
        [] 0 () ∧
      (⟨.white, panel⟩ : Scene).shown .counter 12 [] (.childrenOf 1) 0 = [.shown [] 4 3] ∧
      (⟨.white, panel⟩ : Scene).shown (.pruner [] 1) 12 [] .root () =
        [.shown [] 0 0, .shown [] 1 1, .shown [⟨0, 0⟩] 0 0, .shown [⟨0, 0⟩] 1 1,
          .shown [⟨0, 1⟩] 0 0, .shown [⟨0, 1⟩] 1 1, .shown [] 3 2] :=
  ⟨rfl, panel_wellFormed, rfl, Visitor.mover_leaves ⟨1, 2⟩, Visitor.mover_descends ⟨1, 2⟩,
    Visitor.counter_leaves, Visitor.counter_descends, Visitor.pruner_leaves [] 1,
    Visitor.pruner_prunes [] 1, by decide,
    blockBelow_of_wellFormed ⟨.white, panel⟩ [] panel 1 1 4 1 (.mover ⟨1, 2⟩) .counter
      (.pruner [] 1) 12 [] 0 () rfl panel_wellFormed rfl (Visitor.mover_leaves ⟨1, 2⟩)
      (Visitor.mover_descends ⟨1, 2⟩) Visitor.counter_leaves Visitor.counter_descends
      (Visitor.pruner_leaves [] 1) (Visitor.pruner_prunes [] 1) (by decide),
    by decide, by decide⟩

end Scene

end RetainedScene
