import RetainedScene.Proofs.Scene.Block
import RetainedScene.Proofs.Scene.Projections

/-!
# Walks that move items

A visitor may move each item that it is shown. Where the walk leads does not depend on geometries,
so that the walk is the same as one that only reads, and the scene comes out with the shown items
moved, one after the other, and nothing else changed.
-/

set_option autoImplicit false

namespace RetainedScene

variable {μ ν : Type} {v : Vec2}

def Sight.site (sight : Sight) : Site :=
  ⟨sight.place, sight.slot⟩

theorem filterMap_site? (events : List Event) :
    (events.map Event.mark).filterMap Mark.site? =
      ((events.filterMap Event.call?).map Call.sight).map Sight.site := by
  induction events with
  | nil => rfl
  | cons event rest ih =>
    cases event with
    | enter place index => exact ih
    | call made => exact congrArg (made.sight.site :: ·) ih

theorem filterMap_shown (marks : List Mark) :
    (marks.filter Mark.isShown).filterMap Mark.site? = marks.filterMap Mark.site? := by
  rw [List.filterMap_filter]
  refine List.filterMap_congr fun mark _ => ?_
  cases mark <;> rfl

/-- A moved item is at the old origin plus `v`, and is otherwise as it was. -/
theorem Item.translated_spec (item : Item) (v : Vec2) :
    (item.translated v).geometry.origin.x = item.geometry.origin.x + v.x ∧
      (item.translated v).geometry.origin.y = item.geometry.origin.y + v.y ∧
      (item.translated v).geometry.size = item.geometry.size ∧
      (item.translated v).withGeometry item.geometry = item := by
  rw [translated, geometry_withGeometry]
  refine ⟨rfl, rfl, rfl, ?_⟩
  cases item <;> rfl

/-- Moves what it is shown by `v`, and goes on. -/
def Visitor.Moves (visitor : Visitor μ) (v : Vec2) : Prop :=
  ∀ memory s sight, (visitor memory s sight).edits =
    [.setGeometry sight.place sight.slot (sight.item.geometry.translated v)] ∧
      (visitor memory s sight).action = .descend

namespace Visitor

theorem mover_moves (v : Vec2) : (mover v).Moves v :=
  fun _ _ _ => ⟨rfl, rfl⟩

variable {visitor : Visitor μ}

theorem Moves.descends (h : visitor.Moves v) : visitor.Descends :=
  fun memory s sight => (h memory s sight).2

theorem Moves.leaves (h : visitor.Moves v) : visitor.LeavesRepeaters := by
  intro memory s sight hitem edit hedit
  rw [(h memory s sight).1] at hedit
  obtain rfl := List.mem_singleton.mp hedit
  rw [Edit.LeavesRepeaters, hitem]
  rfl

theorem Moves.applyAll (h : visitor.Moves v) (memory : μ) {s : Scene} {sight : Sight}
    (hitem : s.root.item? sight.place sight.slot = some sight.item) :
    (s.applyAll (visitor memory s sight).edits).1 =
      { s with root := s.root.moved v [sight.site] } := by
  have hmoved : s.root.modifyItem sight.place sight.slot
      (·.withGeometry (sight.item.geometry.translated v)) = s.root.moved v [sight.site] := by
    refine Component.modifyItem_congr fun item hsame => ?_
    obtain rfl : item = sight.item := Option.some.inj (hsame.symm.trans hitem)
    rfl
  rw [(h memory s sight).1, Scene.applyAll, Scene.apply, hitem, hmoved]
  rfl

end Visitor

namespace Component

/-- The sights are those of a component whose items are moved as soon as they have been seen. -/
def SeenMoving (v : Vec2) : Component → List Sight → Prop
  | _, [] => True
  | c, sight :: later =>
    c.item? sight.place sight.slot = some sight.item ∧ SeenMoving v (c.moved v [sight.site]) later

theorem SeenMoving.append {c : Component} {earlier later : List Sight}
    (h : c.SeenMoving v earlier) (h' : (c.moved v (earlier.map Sight.site)).SeenMoving v later) :
    c.SeenMoving v (earlier ++ later) := by
  induction earlier generalizing c with
  | nil => exact h'
  | cons sight rest ih => exact ⟨h.1, ih h.2 h'⟩

theorem SeenMoving.of_modifyWalks {c : Component} {sights : List Sight} {a : RepeaterAddress}
    {g : Nat → Nat}
    (h : (c.modifyRepeaterAt a fun r => { r with walks := g r.walks }).SeenMoving v sights) :
    c.SeenMoving v sights := by
  induction sights generalizing c with
  | nil => trivial
  | cons sight rest ih =>
    obtain ⟨hitem, hrest⟩ := h
    rw [item?_modifyWalks] at hitem
    rw [moved_modifyWalks] at hrest
    exact ⟨hitem, ih hrest⟩

/-- An item that is seen for the first time is seen as it was. -/
theorem SeenMoving.as_before {c : Component} {sights : List Sight} (h : c.SeenMoving v sights)
    (nodup : (sights.map Sight.site).Nodup) :
    ∀ sight ∈ sights, c.item? sight.place sight.slot = some sight.item := by
  induction sights generalizing c with
  | nil => simp
  | cons first rest ih =>
    obtain ⟨hitem, hrest⟩ := h
    obtain ⟨hfirst, hnodup⟩ := List.nodup_cons.mp nodup
    refine List.forall_mem_cons.mpr ⟨hitem, fun sight hsight => ?_⟩
    have hne : first.site ≠ ⟨sight.place, sight.slot⟩ :=
      fun h => hfirst (List.mem_map.mpr ⟨sight, hsight, h.symm⟩)
    have hlater := ih hrest hnodup sight hsight
    rw [item?_moved, List.count_singleton, if_neg (by simpa using hne)] at hlater
    simpa using hlater

end Component

namespace Walk

/-- The items that a walk has shown so far. -/
def seen (w : Walk (Traced μ)) : List Sight :=
  (w.memory.events.reverse.filterMap Event.call?).map Call.sight

/-- Between `w` and the outcome the items that were shown have been moved. -/
def Moved (v : Vec2) (w : Walk (Traced μ)) (o : Outcome (Traced μ)) : Prop :=
  ∃ sights, o.walk.seen = w.seen ++ sights ∧
    o.walk.scene = { w.scene with root := w.scene.root.moved v (sights.map Sight.site) } ∧
    w.scene.root.SeenMoving v sights

theorem steady_moved (v : Vec2) : Steady fun _ (w : Walk (Traced μ)) o => Moved v w o where
  stop _ w _ := ⟨[], (List.append_nil _).symm, rfl, trivial⟩
  trans {_ w o o'} h _ h' := by
    obtain ⟨earlier, hseen, hscene, hearlier⟩ := h
    obtain ⟨later, hseen', hscene', hlater⟩ := h'
    refine ⟨earlier ++ later, ?_, ?_, ?_⟩
    · rw [hseen', hseen, List.append_assoc]
    · rw [hscene', hscene, List.map_append, Component.moved_append]
    · rw [hscene] at hlater
      exact hearlier.append hlater
  held {a w o} h := by
    obtain ⟨sights, hseen, hscene, hsights⟩ := h
    have hroot : ((w.scene.root.modifyRepeaterAt a fun r => { r with walks := r.walks + 1 }).moved v
        (sights.map Sight.site)).modifyRepeaterAt a (fun r => { r with walks := r.walks - 1 }) =
          w.scene.root.moved v (sights.map Sight.site) := by
      rw [Component.moved_modifyWalks v _ _ a (· + 1), Component.modifyWalks_cancel]
    refine ⟨sights, hseen, ?_, hsights.of_modifyWalks⟩
    change ({ o.walk.scene with root := _ } : Scene) = _
    rw [hscene]
    exact congrArg (fun root => ({ w.scene with root } : Scene)) hroot

theorem presents_moved {visitor : Visitor μ} (moves : visitor.Moves v) :
    Presents (fun _ w o => Moved v w o) visitor.traced := by
  intro w sight hitem
  refine ⟨[sight], ?_, ?_, hitem, trivial⟩
  · rw [seen, memory_shown]
    simp [seen, Visitor.traced, Event.call?]
  · rw [scene_shown]
    exact moves.applyAll w.memory.memory hitem

end Walk

namespace Scene

variable {s : Scene} {place : Place} {c : Component} {visitor : Visitor μ} {depth : Nat}

theorem moved_trace (moves : visitor.Moves v) (s : Scene) (depth : Nat) (place : Place)
    (start : Start) (memory : μ) :
    Walk.Moved v ⟨s, memory, []⟩ (s.trace visitor depth place start memory) := by
  have enters (w : Walk (Traced μ)) (p : Place) (index : Nat) :
      Walk.Moved v w ((w.note (.enter p index)).stop .completed) :=
    ⟨[], by simp [Walk.seen, Walk.stop, Walk.note, Event.call?], rfl, trivial⟩
  have nodes := Walk.respects_tracedNode (Walk.steady_moved v) enters
    (Walk.presents_moved moves) depth
  exact Walk.respects_owners (Walk.steady_moved v) [] place
    (Walk.respects_start nodes (Walk.steady_moved v) place start) ⟨s, memory, []⟩

/-- What a walk does that moves each item once. -/
structure MovesOnce (s : Scene) (place : Place) (c : Component) (v : Vec2) (visitor : Visitor μ)
    (depth : Nat) (memory : μ) : Prop where
  completed : (s.walk visitor depth place .root memory).ending = .completed
  /-- As many items, and the same ones in the same order, as `reader` is shown. -/
  same_shown {ν : Type} (reader : Visitor ν) (m : ν) :
    (∀ memory t sight, (reader memory t sight).edits = []) → reader.Descends →
      s.shown visitor depth place .root memory = s.shown reader depth place .root m
  shown_projections :
    ((s.shown visitor depth place .root memory).filterMap Mark.site?).Perm (c.projections place)
  as_before : ∀ call ∈ (s.trace visitor depth place .root memory).calls,
    s.root.item? call.sight.place call.sight.slot = some call.sight.item
  scene : (s.walk visitor depth place .root memory).walk.scene = { s with
    root := s.root.moved v ((s.shown visitor depth place .root memory).filterMap Mark.site?) }
  moved (site : Site) (item : Item) : site ∈ c.projections place →
    s.root.item? site.place site.slot = some item →
      ∃ later, (s.walk visitor depth place .root memory).walk.scene.root.item?
          site.place site.slot = some later ∧
        later.geometry.origin.x = item.geometry.origin.x + v.x ∧
        later.geometry.origin.y = item.geometry.origin.y + v.y ∧
        later.geometry.size = item.geometry.size ∧
        later.withGeometry item.geometry = item
  kept (site : Site) : site ∉ c.projections place →
    (s.walk visitor depth place .root memory).walk.scene.root.item? site.place site.slot =
      s.root.item? site.place site.slot

theorem movesOnce_of_wellFormed (s : Scene) (place : Place) (c : Component) (v : Vec2)
    (visitor : Visitor μ) (depth : Nat) (memory : μ) (hplace : s.root.get? place = some c)
    (hc : c.Throughout Component.WellFormed) (nodup : (c.projections place).Nodup)
    (moves : visitor.Moves v) (hdepth : c.size ≤ depth) :
    s.MovesOnce place c v visitor depth memory := by
  obtain ⟨hending, hmarks⟩ := marks_eq memory hplace hc moves.leaves moves.descends hdepth
  obtain ⟨sights, hseen, hscene, hsights⟩ := moved_trace moves s depth place .root memory
  have hcalls : (s.trace visitor depth place .root memory).calls.map Call.sight = sights := hseen
  have hsites : (s.shown visitor depth place .root memory).filterMap Mark.site? =
      sights.map Sight.site := by
    rw [shown, filterMap_shown, marks, filterMap_site?, ← Walk.Outcome.calls, hcalls]
  have hperm : (sights.map Sight.site).Perm (c.projections place) := by
    rw [← hsites, shown, filterMap_shown, hmarks]
    exact Component.perm_projections hc place
  have once : (sights.map Sight.site).Nodup := hperm.nodup_iff.mpr nodup
  have hwalk : (s.walk visitor depth place .root memory).walk.scene =
      { s with root := s.root.moved v (sights.map Sight.site) } := by
    rw [← s.trace_untraced visitor depth place .root memory]
    exact hscene
  refine ⟨hending, fun reader m reads descends => ?_, hsites ▸ hperm, fun call hcall => ?_,
    hsites ▸ hwalk, fun site item hsite hitem => ?_, fun site hsite => ?_⟩
  · have leaves : reader.LeavesRepeaters := by
      intro memory t sight _ edit hedit
      rw [reads memory t sight] at hedit
      cases hedit
    rw [shown, shown, hmarks, (marks_eq m hplace hc leaves descends hdepth).2]
  · exact hsights.as_before once call.sight (hcalls ▸ List.mem_map_of_mem hcall)
  · rw [hwalk, Component.item?_moved, hitem,
      List.count_eq_one_of_mem once (hperm.mem_iff.mpr hsite)]
    exact ⟨item.translated v, rfl, item.translated_spec v⟩
  · rw [hwalk, Component.item?_moved,
      List.count_eq_zero.mpr fun hmem => hsite (hperm.mem_iff.mp hmem)]
    exact Option.map_id_apply

theorem panel_movesOnce :
    (⟨.white, panel⟩ : Scene).root.get? [] = some panel ∧ panel.Throughout Component.WellFormed ∧
      (panel.projections []).Nodup ∧ (Visitor.mover ⟨1, 2⟩).Moves ⟨1, 2⟩ ∧ panel.size ≤ 12 ∧
      (⟨.white, panel⟩ : Scene).MovesOnce [] panel ⟨1, 2⟩ (.mover ⟨1, 2⟩) 12 [] ∧
      panel.projections [] = [⟨[], 0⟩, ⟨[], 1⟩, ⟨[⟨0, 0⟩], 0⟩, ⟨[⟨0, 0⟩], 1⟩, ⟨[⟨0, 1⟩], 0⟩,
        ⟨[⟨0, 1⟩], 1⟩, ⟨[], 2⟩, ⟨[], 3⟩] :=
  ⟨rfl, panel_wellFormed, by decide, Visitor.mover_moves ⟨1, 2⟩, by decide,
    movesOnce_of_wellFormed ⟨.white, panel⟩ [] panel ⟨1, 2⟩ (.mover ⟨1, 2⟩) 12 [] rfl
      panel_wellFormed (by decide) (Visitor.mover_moves ⟨1, 2⟩) (by decide), by decide⟩

end Scene

end RetainedScene
