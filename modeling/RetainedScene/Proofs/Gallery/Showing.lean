import Mathlib.Data.List.Forall2
import RetainedScene.Proofs.Gallery.History
import RetainedScene.Proofs.Scene.Sights

/-!
# What a gallery shows

The order of what is shown comes from the tree of the gallery, and the content from the last time it
was populated. Nothing that happened before that, and no arrangement, makes a difference to either.
-/

set_option autoImplicit false

namespace RetainedScene

namespace Component

variable {α : Type}

/-- Instances that are made from the elements of a list are seen one after the other. -/
theorem sights_outlinesOf {root c : Component} {place : Place} {slot walks : Nat} {xs : List α}
    {make : Nat → α → Component} (look : Nat → α → List Sight)
    (hr : c.repeaters[slot]? = some ⟨xs.mapIdx make, walks⟩)
    (h : ∀ position x, xs[position]? = some x →
      (((make position x).roots ((⟨place, slot⟩ : RepeaterAddress).instancePlace position)).flatMap
        Outline.marks).filterMap (Mark.sight? root) = look position x) :
    ((c.outlinesOf place slot).flatMap Outline.marks).filterMap (Mark.sight? root) =
      (xs.mapIdx look).flatten := by
  rw [outlinesOf, hr]
  dsimp only
  rw [← List.flatMap_id, List.flatMap_assoc, List.filterMap_flatMap, List.flatMap_def]
  refine congrArg List.flatten (List.ext_getElem (by simp) fun k hk _ => ?_)
  have hlt : k < xs.length := by simpa using hk
  simpa using h k xs[k] (List.getElem?_eq_getElem hlt)

end Component

/-! ### Trees -/

theorem Tile.component_wellFormed (index : Nat) (t : Tile) : (t.component index).WellFormed :=
  of_decide_eq_true rfl

theorem Tile.roots_component (index : Nat) (t : Tile) (place : Place) :
    (t.component index).roots place = [.item place 0 0 [.item place 1 1 []]] := rfl

namespace Gallery

theorem dotComponent_wellFormed (index : Nat) (dot : Rectangle) :
    (dotComponent index dot).WellFormed :=
  of_decide_eq_true rfl

theorem roots_dotComponent (index : Nat) (dot : Rectangle) (place : Place) :
    (dotComponent index dot).roots place = [.item place 0 0 []] := rfl

theorem component_wellFormed (g : Gallery) : g.component.WellFormed :=
  of_decide_eq_true rfl

theorem throughout_component (g : Gallery) : g.component.Throughout Component.WellFormed := by
  refine .of_all g.component_wellFormed fun r hr d hd => ?_
  rcases List.mem_pair.mp hr with rfl | rfl
  · obtain ⟨index, hindex, rfl⟩ := List.mem_mapIdx.mp hd
    exact .of_all (Tile.component_wellFormed ..) (by simp [Tile.component])
  · obtain ⟨index, hindex, rfl⟩ := List.mem_mapIdx.mp hd
    exact .of_all (dotComponent_wellFormed ..) (by simp [dotComponent])

theorem roots_component (g : Gallery) : g.component.roots [] =
    [.item [] 0 0 [.item [] 1 1 [], .dynamic [] 2 (g.component.outlinesOf [] 0),
      .item [] 3 2 [], .dynamic [] 4 (g.component.outlinesOf [] 1)]] := by
  have hbackground : g.component.tree[0]? = some (.item 0 1 4) := rfl
  have htitle : g.component.tree[1]? = some (.item 1 5 0) := rfl
  have htiles : g.component.tree[2]? = some (.dynamic 0) := rfl
  have hring : g.component.tree[3]? = some (.item 2 5 0) := rfl
  have hdots : g.component.tree[4]? = some (.dynamic 1) := rfl
  have hroot := Component.outlineAt_item [] hbackground (by decide)
  change _ = Outline.item [] 0 0 ([1, 2, 3, 4].map (g.component.outlineAt [])) at hroot
  simp only [List.map_cons, List.map_nil, Component.outlineAt_item [] htitle (by decide),
    Component.outlineAt_dynamic [] htiles, Component.outlineAt_item [] hring (by decide),
    Component.outlineAt_dynamic [] hdots] at hroot
  exact (Component.roots_eq ..).trans (congrArg ([·]) hroot)

theorem item?_component (g : Gallery) {slot position : Nat} {r : Repeater Component}
    {d : Component} (hr : g.component.repeaters[slot]? = some r)
    (hd : r.instances[position]? = some d) (k : Nat) :
    g.component.item? [⟨slot, position⟩] k = d.items[k]? := by
  rw [Component.item?_cons, Component.instance?_eq_some hr hd]
  rfl

/-! ### Sights -/

/-- The frame of a tile is seen before the caption. -/
def tileSights (position : Nat) (t : Tile) : List Sight :=
  [⟨[⟨0, position⟩], 0, 0, .rectangle t.frame⟩, ⟨[⟨0, position⟩], 1, 1, .text t.caption⟩]

def dotSights (position : Nat) (dot : Rectangle) : List Sight :=
  [⟨[⟨1, position⟩], 0, 0, .rectangle dot⟩]

/-- All that is seen of a gallery, in order. -/
def lineup (g : Gallery) : List Sight :=
  [⟨[], 0, 0, .rectangle g.background⟩, ⟨[], 1, 1, .text g.title⟩] ++
    (g.tiles.instances.mapIdx tileSights).flatten ++ [⟨[], 3, 2, .path g.ring⟩] ++
      (g.dots.instances.mapIdx dotSights).flatten

theorem sights_tiles (g : Gallery) :
    ((g.component.outlinesOf [] 0).flatMap Outline.marks).filterMap (Mark.sight? g.component) =
      (g.tiles.instances.mapIdx tileSights).flatten := by
  refine Component.sights_outlinesOf tileSights rfl fun position t ht => ?_
  have hd : (g.tiles.instances.mapIdx Tile.component)[position]? = some (t.component position) := by
    rw [List.getElem?_mapIdx, ht]
    rfl
  have hr : g.component.repeaters[0]? =
      some ⟨g.tiles.instances.mapIdx Tile.component, g.tiles.walks⟩ := rfl
  have hitem := g.item?_component hr hd
  rw [Tile.roots_component]
  simp [Outline.marks, Outline.allMarks, List.filterMap_cons, Mark.sight?,
    RepeaterAddress.instancePlace, hitem, Tile.component, tileSights]

theorem sights_dots (g : Gallery) :
    ((g.component.outlinesOf [] 1).flatMap Outline.marks).filterMap (Mark.sight? g.component) =
      (g.dots.instances.mapIdx dotSights).flatten := by
  refine Component.sights_outlinesOf dotSights rfl fun position dot hdot => ?_
  have hd : (g.dots.instances.mapIdx dotComponent)[position]? =
      some (dotComponent position dot) := by
    rw [List.getElem?_mapIdx, hdot]
    rfl
  have hr : g.component.repeaters[1]? =
      some ⟨g.dots.instances.mapIdx dotComponent, g.dots.walks⟩ := rfl
  have hitem := g.item?_component hr hd
  rw [roots_dotComponent]
  simp [Outline.marks, Outline.allMarks, List.filterMap_cons, Mark.sight?,
    RepeaterAddress.instancePlace, hitem, dotComponent, dotSights]

theorem sights_root (g : Gallery) :
    g.sights .root = .ok g.lineup ∧ g.itemCount = .ok g.lineup.length := by
  refine Scene.sights_eq (s := g.scene) rfl g.throughout_component ?_
  change ((g.component.roots []).flatMap Outline.marks).filterMap (Mark.sight? g.component) = _
  have hitem (slot : Nat) : g.component.item? [] slot =
      [.rectangle g.background, .text g.title, .path g.ring][slot]? := rfl
  rw [roots_component, List.flatMap_singleton, Outline.marks_item]
  simp [Outline.marks_item, Outline.marks_dynamic, List.filterMap_cons, Mark.sight?, hitem,
    sights_tiles, sights_dots, lineup]

theorem map_flatten_mapIdx {α β γ : Type} {look : Nat → α → List β} {f : β → γ} {g : α → List γ}
    (h : ∀ k x, (look k x).map f = g x) (xs : List α) :
    ((xs.mapIdx look).flatten).map f = xs.flatMap g := by
  rw [List.map_flatten, List.flatMap_def]
  exact congrArg List.flatten (List.ext_getElem (by simp) (by simp [h]))

theorem items_lineup (g : Gallery) : g.lineup.map Sight.item =
    [.rectangle g.background, .text g.title] ++
      (g.tiles.instances.flatMap fun t => [.rectangle t.frame, .text t.caption]) ++
        [.path g.ring] ++ g.dots.instances.map .rectangle := by
  have htiles : ((g.tiles.instances.mapIdx tileSights).flatten).map Sight.item =
      g.tiles.instances.flatMap fun t => [.rectangle t.frame, .text t.caption] := by
    apply map_flatten_mapIdx
    exact fun _ _ => rfl
  have hdots : ((g.dots.instances.mapIdx dotSights).flatten).map Sight.item =
      g.dots.instances.flatMap fun dot => [.rectangle dot] := by
    apply map_flatten_mapIdx
    exact fun _ _ => rfl
  rw [lineup, List.map_append, List.map_append, List.map_append, htiles, hdots,
    List.map_eq_flatMap (l := g.dots.instances)]
  rfl

theorem length_lineup (g : Gallery) :
    g.lineup.length = 3 + 2 * g.tiles.instances.length + g.dots.instances.length := by
  have h := congrArg List.length g.items_lineup
  simp only [List.length_map, List.length_append, List.length_flatMap, List.length_cons,
    List.length_nil, List.map_const', List.sum_replicate] at h
  rw [h, smul_eq_mul]
  omega

/-! ### Content -/

def Step.contentAfter (content : Model TileSpec × Nat) : Step → Model TileSpec × Nat
  | .populate tiles dots => (tiles, dots)
  | .arrange _ => content

/-- What a gallery was populated with last, or nothing. -/
def lastContent (steps : List Step) : Model TileSpec × Nat :=
  steps.foldl Step.contentAfter (.ofList [], 0)

variable {f : Circle.Functions} {g : Gallery} {title : String}

/-- The gallery has been populated with some content last, and its items may be anywhere. -/
def Holds (g : Gallery) (title : String) (content : Model TileSpec × Nat) : Prop :=
  g.unplaced = ((new title).refilled content.1 content.2).unplaced

theorem new_holds (title : String) : (new title).Holds title (.ofList [], 0) := rfl

theorem Holds.step {content : Model TileSpec × Nat} (h : g.Holds title content) (step : Step) :
    ∃ g', Gallery.step f g step = .ok g' ∧ g'.Holds title (step.contentAfter content) := by
  cases step with
  | populate tiles dots =>
    have htiles : g.tiles.walks = 0 := congrArg (fun x : Gallery => x.tiles.walks) h
    have hdots : g.dots.walks = 0 := congrArg (fun x : Gallery => x.dots.walks) h
    refine ⟨_, refill_eq_refilled htiles hdots tiles dots, ?_⟩
    rw [Holds, unplaced_refilled, h, ← unplaced_refilled]
    rfl
  | arrange size => exact ⟨_, rfl, (unplaced_arrangeBy f g size).trans h⟩

theorem Holds.run {content : Model TileSpec × Nat} (h : g.Holds title content)
    (steps : List Step) : ∃ g', Gallery.run f g steps = .ok g' ∧
      g'.Holds title (steps.foldl Step.contentAfter content) := by
  induction steps generalizing g content with
  | nil => exact ⟨g, rfl, h⟩
  | cons first rest ih =>
    obtain ⟨next, hstep, hnext⟩ := h.step (f := f) first
    obtain ⟨g', hrun, hg'⟩ := ih hnext
    refine ⟨g', ?_, hg'⟩
    rw [Gallery.run, List.foldlM_cons, hstep]
    exact hrun

/-- What a tile takes over from its spec and from the gallery. -/
structure TileOf (titleColor : Color) (t : Tile) (spec : TileSpec) : Prop where
  text : t.caption.text = spec.name
  textColor : t.caption.color = titleColor
  fill : t.frame.color = spec.accent.withAlpha 0.85
  border : t.frame.borderColor = spec.accent

/-- Dots that are twelve apart have one color. -/
def dotColor (phase : Nat) : Color :=
  let red : Float32 := 0.35 + 0.05 * Float32.ofNat phase
  ⟨red, red * 0.8, 0.3, 1⟩

structure Shows (g : Gallery) (title : String) (specs : List TileSpec) (dots : Nat) : Prop where
  sights : ∃ sights, g.sights .root = .ok sights ∧
    sights.length = 3 + 2 * specs.length + dots ∧
    sights.map Sight.item = [.rectangle g.background, .text g.title] ++
      (g.tiles.instances.flatMap fun t => [.rectangle t.frame, .text t.caption]) ++
        [.path g.ring] ++ g.dots.instances.map .rectangle
  itemCount : g.itemCount = .ok (3 + 2 * specs.length + dots)
  title : g.title.text = title
  tiles : List.Forall₂ (TileOf g.title.color) g.tiles.instances specs
  dots_length : g.dots.instances.length = dots
  dots (k : Nat) (dot : Rectangle) : g.dots.instances[k]? = some dot → dot.color = dotColor (k % 12)

theorem Holds.shows {content : Model TileSpec × Nat} (h : g.Holds title content) :
    g.Shows title content.1.toList content.2 := by
  have htitle := congrArg (fun x : Gallery => (x.title.text, x.title.color)) h
  obtain ⟨htext, hcolor⟩ : g.title.text = title ∧ g.title.color = (new title).title.color :=
    Prod.mk.inj htitle
  have htiles : g.tiles.instances.map Tile.unplaced =
      (content.1.toList.mapIdx (makeTile g.title.color)).map Tile.unplaced :=
    hcolor ▸ congrArg (fun x : Gallery => x.tiles.instances) h
  have hdots : g.dots.instances.map Rectangle.unplaced =
      ((Model.ofCount content.2).toList.mapIdx makeDot).map Rectangle.unplaced :=
    congrArg (fun x : Gallery => x.dots.instances) h
  have htileCount : g.tiles.instances.length = content.1.toList.length := by
    simpa using congrArg List.length htiles
  have hdotCount : g.dots.instances.length = content.2 := by
    simpa [Model.length_toList, Model.ofCount] using congrArg List.length hdots
  have hlength := g.length_lineup
  rw [htileCount, hdotCount] at hlength
  obtain ⟨hsights, hcount⟩ := g.sights_root
  refine ⟨⟨g.lineup, hsights, hlength, g.items_lineup⟩, hlength ▸ hcount,
    htext, ?_, hdotCount, fun k dot hdot => ?_⟩
  · refine List.forall₂_iff_get.mpr ⟨htileCount, fun k hk hk' => ?_⟩
    have htile := congrArg (·[k]?) htiles
    simp only [List.getElem?_map, List.getElem?_mapIdx, List.getElem?_eq_getElem hk,
      List.getElem?_eq_getElem hk', Option.map_some, Option.some.injEq] at htile
    exact ⟨congrArg (fun t : Tile => t.caption.text) htile,
      congrArg (fun t : Tile => t.caption.color) htile,
      congrArg (fun t : Tile => t.frame.color) htile,
      congrArg (fun t : Tile => t.frame.borderColor) htile⟩
  · have hsame := congrArg (·[k]?) hdots
    simp only [List.getElem?_map, List.getElem?_mapIdx, hdot, Option.map_some] at hsame
    obtain ⟨made, hmade, hunplaced⟩ := Option.map_eq_some_iff.mp hsame.symm
    obtain ⟨_, -, rfl⟩ := Option.map_eq_some_iff.mp hmade
    exact (congrArg (fun r : Rectangle => r.color) hunplaced).symm

/-- Whatever a gallery has gone through, it shows what it was populated with last. -/
theorem run_shows (f : Circle.Functions) (title : String) (steps : List Step) :
    ∃ g, run f (new title) steps = .ok g ∧
      g.Shows title (lastContent steps).1.toList (lastContent steps).2 := by
  obtain ⟨g, hrun, hholds⟩ := (new_holds title).run (f := f) steps
  exact ⟨g, hrun, hholds.shows⟩

end Gallery

end RetainedScene
