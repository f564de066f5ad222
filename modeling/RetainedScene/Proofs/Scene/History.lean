import RetainedScene.Proofs.Scene.InUse

/-!
# The last writer

After any number of edits and walks, a repeater holds what the last edit that filled it has made
under the host of that moment. An edit that filled a repeater around it counts as well, since its
owner has been made by that edit. Nothing that came before is left.
-/

set_option autoImplicit false

namespace RetainedScene

/-- An edit that has taken effect, and the host at that moment. -/
structure Effect where
  host : Color
  edit : Edit

/-- One after the other: single edits, and walks whose visitors may give edits as well. -/
inductive Step : Type 1
  | edit (edit : Edit)
  | walk {μ : Type} (visitor : Visitor μ) (depth : Nat) (source : Source) (memory : μ)

/-- All edits but those of the geometries of items. -/
def Edit.Resyncs : Edit → Prop
  | .setGeometry _ _ _ => False
  | .update _ _ => True
  | .clear _ => True
  | .setHost _ => True

namespace Component

/-- What a repeater holds that is filled itself, or lies inside one that is. -/
def contentIn (a : RepeaterAddress) (instances : List Component) (b : RepeaterAddress) :
    Option (List Trunk) :=
  match b.owner.drop a.owner.length with
  | [] => some (instances.map trunk)
  | branch :: rest => (instances[branch.position]?).bind fun x => x.content ⟨rest, b.slot⟩

theorem Refilled.content_inside {c d : Component} {a b : RepeaterAddress}
    {instances : List Component} (h : c.Refilled d a instances)
    (hb : b = a ∨ a ∈ Place.owners b.owner) : d.content b = contentIn a instances b := by
  rcases hb with rfl | hb
  · rw [h.content_self, contentIn, List.drop_length]
  · obtain ⟨position, rest, howner⟩ := Place.mem_owners_iff.mp hb
    obtain ⟨owner, slot⟩ := b
    obtain rfl : owner = a.owner ++ ⟨a.slot, position⟩ :: rest := howner
    rw [contentIn, List.drop_left, content, h.inside]
    change _ = (instances[position]?).bind fun x => x.content ⟨rest, slot⟩
    cases instances[position]? <;> rfl

end Component

namespace Effect

/-- The edit fills the repeater, or one that the repeater's owner lies in. -/
def concerns (e : Effect) (b : RepeaterAddress) : Bool :=
  e.edit.target?.any fun a => a = b || a ∈ Place.owners b.owner

def made (e : Effect) (b : RepeaterAddress) : Option (List Trunk) :=
  (e.edit.refill? e.host).bind fun (a, instances) => Component.contentIn a instances b

/-- The last that concerns a repeater. -/
def lastOn (effects : List Effect) (b : RepeaterAddress) : Option Effect :=
  effects.reverse.find? fun e => e.concerns b

theorem lastOn_cons (e : Effect) (effects : List Effect) (b : RepeaterAddress) :
    lastOn (e :: effects) b = (lastOn effects b).or (if e.concerns b then some e else none) := by
  rw [lastOn, List.reverse_cons, List.find?_append, lastOn, List.find?_singleton]

/-- What the effects leave of what a repeater held before. -/
def left (effects : List Effect) (b : RepeaterAddress) (before : Option (List Trunk)) :
    Option (List Trunk) :=
  match lastOn effects b with
  | none => before
  | some e => e.made b

theorem left_cons (e : Effect) (effects : List Effect) (b : RepeaterAddress)
    (before : Option (List Trunk)) :
    left (e :: effects) b before =
      left effects b (if e.concerns b then e.made b else before) := by
  rw [left, left, lastOn_cons]
  cases lastOn effects b with
  | some last => rfl
  | none => by_cases h : e.concerns b <;> simp [h]

theorem left_append (effects later : List Effect) (b : RepeaterAddress)
    (before : Option (List Trunk)) :
    left (effects ++ later) b before = left later b (left effects b before) := by
  induction effects generalizing before with
  | nil => rfl
  | cons e effects ih => rw [List.cons_append, left_cons, left_cons, ih]

end Effect

namespace Scene

/-- Those of some edits, given one after the other, that take effect. -/
def effects : Scene → List Edit → List Effect
  | _, [] => []
  | s, edit :: rest =>
    match s.apply edit with
    | .ok t => ⟨s.host, edit⟩ :: effects t rest
    | .error _ => []

theorem effects_cons (s : Scene) (edit : Edit) (rest : List Edit) :
    s.effects (edit :: rest) = match s.apply edit with
      | .ok t => ⟨s.host, edit⟩ :: t.effects rest
      | .error _ => [] :=
  rfl

end Scene

def Turn.effects (turn : Turn) : List Effect :=
  turn.scene.effects turn.edits

namespace Step

/-- A step that fails leaves behind what it has done so far. -/
def run (s : Scene) : Step → Scene
  | edit given => (s.applyAll [given]).1
  | walk visitor depth source memory => (s.walkFrom visitor depth source memory).walk.scene

def effects (s : Scene) : Step → List Effect
  | edit given => s.effects [given]
  | walk visitor depth source memory =>
    (s.turns visitor depth source memory).flatMap Turn.effects

end Step

namespace Scene

def runAll (s : Scene) (steps : List Step) : Scene :=
  steps.foldl Step.run s

def history : Scene → List Step → List Effect
  | _, [] => []
  | s, step :: rest => step.effects s ++ history (step.run s) rest

/-- What is looked at of a trunk is not changed by an edit of geometries, or there is none. -/
def Blind {α : Type} (look : Trunk → α) (edit : Edit) : Prop :=
  edit.Resyncs ∨ ∀ t, look t.unplaced = look t

end Scene

section

variable {α : Type} {look : Trunk → α}

theorem Component.map_content_of_outward (hlook : ∀ t, look t.unplaced = look t)
    {c d : Component} {b : RepeaterAddress}
    (h : (d.repeater? b).map (stem outward) = (c.repeater? b).map (stem outward)) :
    (d.content b).map (List.map look) = (c.content b).map (List.map look) := by
  have through : ∀ x : Component, (x.content b).map (List.map look) =
      (((x.repeater? b).map (stem outward)).map Prod.snd).map (List.map look) := by
    intro x
    rw [← holdings_eq_stem, holdings, Option.map_map]
    congr 1
    funext trunks
    simp only [Function.comp_apply, List.map_map]
    exact List.map_congr_left fun t _ => (hlook t).symm
  rw [through d, through c, h]

theorem Effect.map_left_congr {effects : List Effect} {b : RepeaterAddress}
    {before before' : Option (List Trunk)}
    (h : before.map (List.map look) = before'.map (List.map look)) :
    (left effects b before).map (List.map look) = (left effects b before').map (List.map look) := by
  rw [left, left]
  cases lastOn effects b with
  | none => exact h
  | some last => rfl

namespace Scene

theorem map_content_apply {s t : Scene} {edit : Edit} (h : s.apply edit = .ok t)
    (blind : Blind look edit) (b : RepeaterAddress) :
    (t.root.content b).map (List.map look) =
      (if (⟨s.host, edit⟩ : Effect).concerns b then (⟨s.host, edit⟩ : Effect).made b
        else s.root.content b).map (List.map look) := by
  rcases apply_cases h with ⟨a, instances, hrefill, hfilled, -⟩ | ⟨host, rfl, rfl⟩ |
    ⟨owner, slot, geometry, rfl, rfl⟩
  · have htarget : edit.target? = some a := by rw [Edit.target?_eq s.host, hrefill]; rfl
    have hmade : (⟨s.host, edit⟩ : Effect).made b = Component.contentIn a instances b := by
      rw [Effect.made, hrefill]
      rfl
    by_cases hb : a = b ∨ a ∈ Place.owners b.owner
    · have hconcerns : (⟨s.host, edit⟩ : Effect).concerns b = true := by
        simpa [Effect.concerns, htarget] using hb
      rw [if_pos hconcerns, hmade, hfilled.content_inside (hb.imp_left Eq.symm)]
    · have hconcerns : ¬ (⟨s.host, edit⟩ : Effect).concerns b = true := by
        simpa [Effect.concerns, htarget] using hb
      rw [if_neg hconcerns, hfilled.content_outside (fun hba => hb (.inl hba.symm))
        fun ha => hb (.inr ha)]
  · rfl
  · have hlook := blind.resolve_left fun h => h
    exact Component.map_content_of_outward hlook (s.root.stem_moveItem owner slot geometry b)

/-- Of a number of edits, those that take effect tell what is left. -/
theorem map_content_applyAll (edits : List Edit) (s : Scene)
    (blind : ∀ e ∈ s.effects edits, Blind look e.edit) (b : RepeaterAddress) :
    ((s.applyAll edits).1.root.content b).map (List.map look) =
      (Effect.left (s.effects edits) b (s.root.content b)).map (List.map look) := by
  induction edits generalizing s with
  | nil => rfl
  | cons edit rest ih =>
    rw [applyAll_cons, effects_cons]
    rw [effects_cons] at blind
    cases happly : s.apply edit with
    | error fault => rfl
    | ok t =>
      simp only [happly] at blind
      have hfirst := map_content_apply happly (blind _ List.mem_cons_self) b
      have hrest := ih t fun e he => blind e (List.mem_cons_of_mem _ he)
      rw [Effect.left_cons]
      exact hrest.trans (Effect.map_left_congr hfirst)

theorem map_content_walk (s : Scene) {μ : Type} (visitor : Visitor μ) (depth : Nat)
    (source : Source) (memory : μ)
    (blind : ∀ e ∈ (Step.walk visitor depth source memory).effects s, Blind look e.edit)
    (b : RepeaterAddress) :
    ((s.walkFrom visitor depth source memory).walk.scene.root.content b).map (List.map look) =
      (Effect.left ((Step.walk visitor depth source memory).effects s) b
        (s.root.content b)).map (List.map look) := by
  let Told (w : Walk (Recorded μ)) : Prop :=
    (∀ turn ∈ w.memory.turns, ∀ e ∈ turn.effects, Blind look e.edit) →
      (w.scene.root.content b).map (List.map look) =
        (Effect.left (w.memory.turns.reverse.flatMap Turn.effects) b
          (s.root.content b)).map (List.map look)
  have steady : Walk.Steady fun _ (w : Walk (Recorded μ)) o => Told w → Told o.walk := by
    refine ⟨fun _ _ _ h => h, fun h _ h' hw => h' (h hw), fun {a w o} h hw hblind => ?_⟩
    have hhold := w.scene.root.content_modifyWalks a b (· + 1)
    have hrelease := o.walk.scene.root.content_modifyWalks a b (· - 1)
    have held : Told (w.hold a) := fun hblind =>
      (congrArg (Option.map (List.map look)) hhold).trans (hw hblind)
    exact (congrArg (Option.map (List.map look)) hrelease).trans (h held hblind)
  have presents : Walk.Presents (fun _ w o => Told w → Told o.walk) visitor.recorded := by
    intro w sight _ hw hblind
    rw [Walk.memory_shown] at hblind ⊢
    obtain ⟨hturn, hearlier⟩ := List.forall_mem_cons.mp hblind
    rw [Walk.scene_shown]
    refine (map_content_applyAll _ w.scene hturn b).trans ?_
    change _ = (Effect.left ((_ :: w.memory.turns).reverse.flatMap Turn.effects) b _).map _
    rw [List.reverse_cons, List.flatMap_append, Effect.left_append, List.flatMap_singleton]
    exact Effect.map_left_congr (hw hearlier)
  have start : Told ⟨s, ⟨memory, []⟩⟩ := fun _ => rfl
  have told := walkFrom_respects steady presents s depth source ⟨memory, []⟩ start
  have hscene : (s.walkFrom visitor depth source memory).walk.scene =
      (s.record visitor depth source memory).walk.scene := by
    rw [← s.record_unrecorded visitor depth source memory]
    rfl
  rw [hscene]
  refine told fun turn hturn e he => blind e ?_
  exact List.mem_flatMap.mpr ⟨turn, List.mem_reverse.mpr hturn, he⟩

theorem map_content_run (s : Scene) (step : Step)
    (blind : ∀ e ∈ step.effects s, Blind look e.edit) (b : RepeaterAddress) :
    ((step.run s).root.content b).map (List.map look) =
      (Effect.left (step.effects s) b (s.root.content b)).map (List.map look) := by
  cases step with
  | edit given => exact map_content_applyAll [given] s blind b
  | walk visitor depth source memory =>
    exact map_content_walk s visitor depth source memory blind b

theorem map_content_runAll (steps : List Step) (s : Scene)
    (blind : ∀ e ∈ s.history steps, Blind look e.edit) (b : RepeaterAddress) :
    ((s.runAll steps).root.content b).map (List.map look) =
      (Effect.left (s.history steps) b (s.root.content b)).map (List.map look) := by
  induction steps generalizing s with
  | nil => rfl
  | cons step rest ih =>
    rw [history] at blind ⊢
    have hfirst := map_content_run s step (fun e he => blind e (List.mem_append_left _ he)) b
    have hrest := ih (step.run s) fun e he => blind e (List.mem_append_right _ he)
    rw [Effect.left_append]
    exact hrest.trans (Effect.map_left_congr hfirst)

end Scene

end

namespace Feed

/-- Number of elements of the model that a repeater is fed with. -/
def count : Feed Blueprint → Nat
  | .dots count => (Model.ofCount count).count
  | .components blueprints => (Model.ofList blueprints).count

/-- What is made afresh, under a host, from the element with an index. -/
def instance? (host : Color) (index : Nat) : Feed Blueprint → Option Component
  | .dots count => ((Model.ofCount count).get index).toOption.map fun _ => .dot host index
  | .components blueprints =>
    ((Model.ofList blueprints).get index).toOption.map (Blueprint.make host index)

end Feed

theorem Model.getElem?_toList {δ : Type} (m : Model δ) (index : Nat) :
    m.toList[index]? = (m.get index).toOption := by
  rw [toList, List.getElem?_ofFn, get]
  by_cases h : index < m.count <;> simp [h, Except.toOption]

theorem Blueprint.makeInstances_getElem? (host : Color) (feed : Feed Blueprint) (index : Nat) :
    (makeInstances host feed)[index]? = feed.instance? host index := by
  cases feed with
  | dots count => rw [makeInstances, List.getElem?_mapIdx, Model.getElem?_toList, Feed.instance?]
  | components blueprints =>
    rw [makeInstances_components, List.getElem?_mapIdx, Feed.instance?, ← Model.getElem?_toList,
      Model.toList_ofList]

theorem Blueprint.length_makeInstances (host : Color) (feed : Feed Blueprint) :
    (makeInstances host feed).length = feed.count := by
  cases feed with
  | dots count => rw [makeInstances, List.length_mapIdx, Model.length_toList, Feed.count]
  | components blueprints => rw [makeInstances_components, List.length_mapIdx]; rfl

namespace Scene

/-- How the last writer determines what repeaters hold. Whatever is looked at of an instance, it is
    meant to be something that no edit has changed by giving items new geometries. -/
structure Determined (s : Scene) (steps : List Step) : Prop where
  last {α : Type} (look : Trunk → α) : (∀ e ∈ s.history steps, Blind look e.edit) → ∀ b,
    ((s.runAll steps).root.content b).map (List.map look) =
      match Effect.lastOn (s.history steps) b with
      | none => (s.root.content b).map (List.map look)
      | some e => (e.made b).map (List.map look)
  filled {α : Type} (look : Trunk → α) : (∀ e ∈ s.history steps, Blind look e.edit) →
    ∀ host b feed, Effect.lastOn (s.history steps) b = some ⟨host, .update b feed⟩ →
      ∃ r, (s.runAll steps).root.repeater? b = some r ∧ r.length = feed.count ∧
        ∀ index, (r.instances[index]?).map (look ∘ Component.trunk) =
          (feed.instance? host index).map (look ∘ Component.trunk)
  cleared {host : Color} {b : RepeaterAddress} :
    Effect.lastOn (s.history steps) b = some ⟨host, .clear b⟩ →
      ∃ r, (s.runAll steps).root.repeater? b = some r ∧ r.isEmpty
  agree {α : Type} (look : Trunk → α) (s' : Scene) (steps' : List Step) :
    (∀ e ∈ s.history steps, Blind look e.edit) → (∀ e ∈ s'.history steps', Blind look e.edit) →
      ∀ b e, Effect.lastOn (s.history steps) b = some e →
        Effect.lastOn (s'.history steps') b = some e →
          ((s.runAll steps).root.content b).map (List.map look) =
            ((s'.runAll steps').root.content b).map (List.map look)
  /-- An edit of a repeater leaves alone what is not nested in its instances. -/
  frame {edit : Edit} {t : Scene} {a b : RepeaterAddress} :
    (s.runAll steps).apply edit = .ok t → edit.target? = some a → b ≠ a →
      a ∉ Place.owners b.owner → t.root.content b = (s.runAll steps).root.content b
  refused {edit : Edit} {fault : Fault} : (s.runAll steps).apply edit = .error fault →
    s.runAll (steps ++ [.edit edit]) = s.runAll steps ∧
      s.history (steps ++ [.edit edit]) = s.history steps

theorem content_frame {s t : Scene} {edit : Edit} {a b : RepeaterAddress}
    (h : s.apply edit = .ok t) (htarget : edit.target? = some a) (hne : b ≠ a)
    (houtside : a ∉ Place.owners b.owner) : t.root.content b = s.root.content b := by
  rw [Edit.target?_eq s.host] at htarget
  obtain ⟨⟨a', instances⟩, hrefill, rfl⟩ := Option.map_eq_some_iff.mp htarget
  rcases apply_cases h with ⟨a'', instances', hrefill', hfilled, -⟩ | ⟨host, rfl, -⟩ |
    ⟨owner, slot, geometry, rfl, -⟩
  · rw [hrefill] at hrefill'
    obtain ⟨rfl, rfl⟩ := Prod.mk.inj (Option.some.inj hrefill')
    exact hfilled.content_outside hne houtside
  · cases hrefill
  · cases hrefill

theorem runAll_concat (s : Scene) (steps : List Step) (step : Step) :
    s.runAll (steps ++ [step]) = step.run (s.runAll steps) := by
  rw [runAll, List.foldl_append, runAll]
  rfl

theorem history_concat (s : Scene) (steps : List Step) (step : Step) :
    s.history (steps ++ [step]) = s.history steps ++ step.effects (s.runAll steps) := by
  induction steps generalizing s with
  | nil => rw [List.nil_append, history, history, history, List.append_nil, List.nil_append]; rfl
  | cons first rest ih => rw [List.cons_append, history, ih, history, List.append_assoc]; rfl

theorem determined_by_last (s : Scene) (steps : List Step) : s.Determined steps := by
  have last : ∀ {α : Type} (look : Trunk → α), (∀ e ∈ s.history steps, Blind look e.edit) → ∀ b,
      ((s.runAll steps).root.content b).map (List.map look) =
        match Effect.lastOn (s.history steps) b with
        | none => (s.root.content b).map (List.map look)
        | some e => (e.made b).map (List.map look) := by
    intro α look blind b
    rw [map_content_runAll steps s blind b, Effect.left]
    cases Effect.lastOn (s.history steps) b <;> rfl
  refine ⟨last, fun {α} look blind host b feed hlast => ?_, fun {host b} hlast => ?_,
    fun {α} look s' steps' blind blind' b e hlast hlast' => ?_, content_frame, fun {edit fault} herror => ?_⟩
  · have hcontent := last look blind b
    rw [hlast] at hcontent
    simp only [Effect.made, Edit.refill?, Option.bind_some, Component.contentIn, List.drop_length,
      Option.map_some, Component.content, Option.map_map] at hcontent
    obtain ⟨r, hr, hshown⟩ := Option.map_eq_some_iff.mp hcontent
    simp only [Function.comp_apply, List.map_map] at hshown
    refine ⟨r, hr, ?_, fun index => ?_⟩
    · have hlength := congrArg List.length hshown
      rw [List.length_map, List.length_map, Blueprint.length_makeInstances] at hlength
      exact hlength
    · rw [← Blueprint.makeInstances_getElem?, ← List.getElem?_map, ← List.getElem?_map, hshown]
  · have hcontent := last (fun _ => ()) (fun _ _ => .inr fun _ => rfl) b
    rw [hlast] at hcontent
    simp only [Effect.made, Edit.refill?, Option.bind_some, Component.contentIn, List.drop_length,
      Option.map_some, Component.content, Option.map_map] at hcontent
    obtain ⟨r, hr, hshown⟩ := Option.map_eq_some_iff.mp hcontent
    refine ⟨r, hr, ?_⟩
    simpa [Repeater.isEmpty] using hshown
  · rw [last look blind b, map_content_runAll steps' s' blind' b, Effect.left, hlast, hlast']
  · have heffects : Step.effects (s.runAll steps) (.edit edit) = [] := by
      rw [Step.effects, effects_cons, herror]
    have hrun : Step.run (s.runAll steps) (.edit edit) = s.runAll steps := by
      rw [Step.run, applyAll_cons, herror]
    rw [runAll_concat, history_concat, heffects, hrun, List.append_nil]
    exact ⟨rfl, rfl⟩

/-- The edit that is refused while the dots are walked is not in the history. -/
example : ((⟨.white, panel⟩ : Scene).history
    [.edit (.setHost .black), .edit (.clear ⟨[], 0⟩), .walk feeding 12 (.component [] .root) 0]).map
      (fun e => (e.host == .black, e.edit.target?)) =
    [(false, none), (true, some ⟨[], 0⟩), (true, some ⟨[], 0⟩), (true, some ⟨[], 0⟩),
      (true, some ⟨[], 0⟩)] := by
  decide

end Scene

end RetainedScene
