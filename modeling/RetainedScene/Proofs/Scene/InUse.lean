import RetainedScene.Proofs.Scene.Borrowing
import RetainedScene.Proofs.Scene.RootWalk
import RetainedScene.Proofs.Scene.Turns

/-!
# What a visitor may fill

While a visitor is shown an item, exactly the repeaters on the way to the item's component refuse
to be filled, and what they hold stays until the next item and longer. After the walk, however it
ends, none refuses.
-/

set_option autoImplicit false

namespace RetainedScene

variable {μ : Type}

namespace Scene

/-- A scene that no walk is passing through. -/
def Quiet (s : Scene) : Prop :=
  ∀ a r, s.root.repeater? a = some r → r.walks = 0

theorem quiet_iff {s : Scene} : s.Quiet ↔ s.root.Borrowed (Place.owners []) := by
  simp only [Quiet, Component.Borrowed, Place.owners, Place.ownersFrom, List.count_nil]

theorem quiet_ofBlueprint (b : Blueprint) : (ofBlueprint b).Quiet :=
  quiet_iff.mpr (Component.borrowed_nil (Blueprint.makeRepeaters_borrowed .white b.feeds))

theorem Quiet.applyAll {s : Scene} (h : s.Quiet) (edits : List Edit) :
    (s.applyAll edits).1.Quiet :=
  quiet_iff.mpr (applyAll_onWay edits (quiet_iff.mp h)).1

/-- Of all repeaters, those on the way to a place refuse to be filled, and nothing changes. -/
structure GuardsWay (s : Scene) (place : Place) : Prop where
  refused_iff {a : RepeaterAddress} {r : Repeater Component} {edit : Edit}
    {instances : List Component} : s.root.repeater? a = some r →
      edit.refill? s.host = some (a, instances) →
        (s.apply edit = .error .repeaterInUse ↔ a ∈ Place.owners place)
  unchanged {a : RepeaterAddress} {r : Repeater Component} {edit : Edit}
    {instances : List Component} : s.root.repeater? a = some r →
      edit.refill? s.host = some (a, instances) → a ∈ Place.owners place →
        ∀ rest, s.applyAll (edit :: rest) = (s, some .repeaterInUse)
  filled {a : RepeaterAddress} {r : Repeater Component} {edit : Edit}
    {instances : List Component} : s.root.repeater? a = some r →
      edit.refill? s.host = some (a, instances) → a ∉ Place.owners place →
        ∃ t, s.apply edit = .ok t ∧ t.root.repeater? a = some ⟨instances, 0⟩

theorem guardsWay_of_borrowed {s : Scene} {place : Place}
    (h : s.root.Borrowed (Place.owners place)) : s.GuardsWay place := by
  have refused : ∀ {a r edit instances}, s.root.repeater? a = some r →
      edit.refill? s.host = some (a, instances) → a ∈ Place.owners place →
        s.apply edit = .error .repeaterInUse := by
    intro a r edit instances hr hrefill ha
    apply apply_refill_inUse hrefill hr
    rw [h a r hr]
    exact fun hzero => List.count_eq_zero.mp hzero ha
  have filled : ∀ {a r edit instances}, s.root.repeater? a = some r →
      edit.refill? s.host = some (a, instances) → a ∉ Place.owners place →
        ∃ t, s.apply edit = .ok t ∧ t.root.repeater? a = some ⟨instances, 0⟩ := by
    intro a r edit instances hr hrefill ha
    have hidle : r.walks = 0 := by rw [h a r hr, List.count_eq_zero.mpr ha]
    obtain ⟨t, ht, hfilled, -⟩ := apply_refill_ok hrefill hr hidle
    exact ⟨t, ht, hfilled.self⟩
  refine ⟨fun {a r edit instances} hr hrefill => ⟨fun herror => ?_, refused hr hrefill⟩,
    fun hr hrefill ha rest => ?_, filled⟩
  · by_cases ha : a ∈ Place.owners place
    · exact ha
    · obtain ⟨t, ht, -⟩ := filled hr hrefill ha
      rw [ht] at herror
      cases herror
  · rw [applyAll_cons, refused hr hrefill ha]

end Scene

/-- What was on the way at a turn is the same at the next, and at last in the scene. -/
def Turn.Kept : Scene → List Turn → Prop
  | _, [] => True
  | s, turn :: earlier => turn.scene.root.Keeps s.root (Place.owners turn.sight.place) ∧
    Kept turn.scene earlier

namespace Turn

theorem Kept.of_holdings {s t : Scene} (h : ∀ a, t.root.holdings a = s.root.holdings a)
    {turns : List Turn} (kept : Kept s turns) : Kept t turns := by
  cases turns with
  | nil => trivial
  | cons turn earlier => exact ⟨fun a ha => (h a).trans (kept.1 a ha), kept.2⟩

theorem Kept.next {s : Scene} {after before : List Turn} {later earlier : Turn}
    (kept : Kept s (after ++ later :: earlier :: before)) :
    earlier.scene.root.Keeps later.scene.root (Place.owners earlier.sight.place) := by
  induction after generalizing s with
  | nil => exact kept.2.1
  | cons turn after ih => exact ih kept.2

end Turn

namespace Walk

/-- At each turn so far, and now, the repeaters in use are those of the way. -/
structure Regular (chain : List RepeaterAddress) (w : Walk (Recorded μ)) : Prop where
  borrowed : w.scene.root.Borrowed chain
  turns : ∀ turn ∈ w.memory.turns,
    turn.scene.root.Borrowed (Place.owners turn.sight.place) ∧
      turn.scene.root.item? turn.sight.place turn.sight.slot = some turn.sight.item
  kept : Turn.Kept w.scene w.memory.turns

theorem Regular.hold {w : Walk (Recorded μ)} {a : RepeaterAddress} {chain : List RepeaterAddress}
    (h : Regular chain w) : Regular (chain ++ [a]) (w.hold a) where
  borrowed := h.borrowed.hold a
  turns := h.turns
  kept := h.kept.of_holdings fun b => w.scene.root.holdings_modifyWalks a b (· + 1)

theorem Regular.release {w : Walk (Recorded μ)} {a : RepeaterAddress}
    {chain : List RepeaterAddress} (h : Regular (chain ++ [a]) w) :
    Regular chain (w.release a) where
  borrowed := h.borrowed.release
  turns := h.turns
  kept := h.kept.of_holdings fun b => w.scene.root.holdings_modifyWalks a b (· - 1)

theorem steady_regular :
    Steady fun chain (w : Walk (Recorded μ)) o => Regular chain w → Regular chain o.walk where
  stop _ _ _ h := h
  trans h _ h' hw := h' (h hw)
  held h hw := (h hw.hold).release

theorem presents_regular (visitor : Visitor μ) :
    Presents (fun chain w o => Regular chain w → Regular chain o.walk) visitor.recorded := by
  intro w sight hitem hw
  obtain ⟨hborrowed, hkeeps, -⟩ := Scene.applyAll_onWay
    (visitor.recorded w.memory w.scene sight).edits hw.borrowed
  rw [← scene_shown] at hborrowed hkeeps
  refine ⟨hborrowed, ?_, ?_⟩
  · rw [memory_shown]
    exact List.forall_mem_cons.mpr ⟨⟨hw.borrowed, hitem⟩, hw.turns⟩
  · rw [memory_shown]
    exact ⟨hkeeps, hw.kept⟩

/-- A walk ends in the fault of the first turn that has one. -/
def Heeds (w : Walk (Recorded μ)) (o : Outcome (Recorded μ)) : Prop :=
  (∀ turn ∈ w.memory.turns, turn.fault? = none) →
    ∀ turn ∈ o.walk.memory.turns, ∀ fault, turn.fault? = some fault → o.ending = .fault fault

theorem steady_heeds : Steady fun _ (w : Walk (Recorded μ)) o => Heeds w o where
  stop _ w ending hw turn hturn fault hfault := by
    rw [hw turn hturn] at hfault
    cases hfault
  trans {_ w o o'} h hending h' hw := by
    refine h' fun turn hturn => ?_
    cases hfault : turn.fault? with
    | none => rfl
    | some fault =>
      have := h hw turn hturn fault hfault
      rw [hending] at this
      cases this
  held h hw := h hw

theorem presents_heeds (visitor : Visitor μ) :
    Presents (fun _ w o => Heeds w o) visitor.recorded := by
  intro w sight _ hw
  rw [memory_shown]
  refine List.forall_mem_cons.mpr ⟨fun fault hfault => ?_, fun turn hturn fault hfault => ?_⟩
  · exact ending_shown hfault
  · rw [hw turn hturn] at hfault
    cases hfault

end Walk

namespace Scene

theorem regular_record {s : Scene} (visitor : Visitor μ) (depth : Nat) (source : Source)
    (memory : μ) (h : s.Quiet) : Walk.Regular [] (s.record visitor depth source memory).walk :=
  walkFrom_respects Walk.steady_regular (Walk.presents_regular visitor) s depth source _
    ⟨quiet_iff.mp h, fun _ hturn => absurd hturn List.not_mem_nil, trivial⟩

/-- How a walk lends repeaters to its visitor. -/
structure Lends (s : Scene) (visitor : Visitor μ) (depth : Nat) (source : Source) (memory : μ) :
    Prop where
  recorded : (s.record visitor depth source memory).withMemory Recorded.memory =
    s.walkFrom visitor depth source memory
  guards : ∀ turn ∈ s.turns visitor depth source memory, ∀ edits t,
    turn.scene.applyAll edits = (t, none) → t.GuardsWay turn.sight.place
  /-- Nothing that the visitor tries makes what is being walked go away. -/
  keeps : ∀ turn ∈ s.turns visitor depth source memory, ∀ edits,
    turn.scene.root.Keeps (turn.scene.applyAll edits).1.root (Place.owners turn.sight.place) ∧
      ((turn.scene.applyAll edits).1.root.get? turn.sight.place).map Component.outward =
        (turn.scene.root.get? turn.sight.place).map Component.outward
  keepsOn {before after : List Turn} {earlier later : Turn} :
    s.turns visitor depth source memory = before ++ earlier :: later :: after →
      earlier.scene.root.Keeps later.scene.root (Place.owners earlier.sight.place)
  shown : ∀ turn ∈ s.turns visitor depth source memory,
    turn.scene.root.item? turn.sight.place turn.sight.slot = some turn.sight.item
  fails : ∀ turn ∈ s.turns visitor depth source memory, ∀ fault, turn.fault? = some fault →
    (s.walkFrom visitor depth source memory).ending = .fault fault
  quiet : (s.walkFrom visitor depth source memory).walk.scene.Quiet
  free {a : RepeaterAddress} {r : Repeater Component} {edit : Edit}
    {instances : List Component} :
      (s.walkFrom visitor depth source memory).walk.scene.root.repeater? a = some r →
        edit.refill? (s.walkFrom visitor depth source memory).walk.scene.host =
          some (a, instances) →
            ∃ t, (s.walkFrom visitor depth source memory).walk.scene.apply edit = .ok t ∧
              t.root.repeater? a = some ⟨instances, 0⟩

theorem lends_of_quiet (s : Scene) (visitor : Visitor μ) (depth : Nat) (source : Source)
    (memory : μ) (h : s.Quiet) : s.Lends visitor depth source memory := by
  have hrecorded := s.record_unrecorded visitor depth source memory
  have hregular := regular_record visitor depth source memory h
  have hheeds : Walk.Heeds ⟨s, ⟨memory, []⟩⟩ (s.record visitor depth source memory) :=
    walkFrom_respects Walk.steady_heeds (Walk.presents_heeds visitor) s depth source _
  have hscene : (s.walkFrom visitor depth source memory).walk.scene =
      (s.record visitor depth source memory).walk.scene := by
    rw [← hrecorded]
    rfl
  have hover : (s.walkFrom visitor depth source memory).walk.scene.Quiet := by
    rw [hscene]
    exact quiet_iff.mpr hregular.borrowed
  have hturns : ∀ turn ∈ s.turns visitor depth source memory,
      turn ∈ (s.record visitor depth source memory).walk.memory.turns :=
    fun turn hturn => List.mem_reverse.mp hturn
  refine ⟨hrecorded, fun turn hturn edits t ht => ?_, fun turn hturn edits => ?_,
    fun {before after earlier later} hsplit => ?_, fun turn hturn => ?_,
    fun turn hturn fault hfault => ?_, hover, fun hr hrefill => ?_⟩
  · have hborrowed := (hregular.turns turn (hturns turn hturn)).1
    have hreached := (applyAll_onWay edits hborrowed).1
    rw [ht] at hreached
    exact guardsWay_of_borrowed hreached
  · obtain ⟨-, hkeeps, houtward⟩ :=
      applyAll_onWay edits (hregular.turns turn (hturns turn hturn)).1
    exact ⟨hkeeps, hkeeps.outward_eq houtward⟩
  · have hlatest := congrArg List.reverse hsplit
    rw [turns, List.reverse_reverse] at hlatest
    simp only [List.reverse_append, List.reverse_cons, List.append_assoc, List.cons_append,
      List.nil_append] at hlatest
    have hkept := hregular.kept
    rw [hlatest] at hkept
    exact hkept.next
  · exact (hregular.turns turn (hturns turn hturn)).2
  · rw [← hrecorded]
    exact hheeds (fun _ h => absurd h List.not_mem_nil) turn (hturns turn hturn) fault hfault
  · exact (guardsWay_of_borrowed (quiet_iff.mp hover)).filled hr hrefill List.not_mem_nil

/-- Fills the first repeater of the root with dots each time it is shown an item. -/
def feeding : Visitor Nat := fun seen _ _ =>
  ⟨seen + 1, [.update ⟨[], 0⟩ (.dots 3)], .descend⟩

theorem panel_quiet : (⟨.white, panel⟩ : Scene).Quiet := by
  refine quiet_iff.mpr (Component.borrowed_nil ?_)
  simp only [panel, forall_eq, List.mem_cons, List.not_mem_nil, or_false, forall_eq_or_imp,
    true_and]
  exact ⟨Component.borrowed_nil (by simp [row]), Component.borrowed_nil (by simp [row])⟩

/-- Before the walk enters the repeater the dots come, and then they stay. -/
theorem panel_lends :
    (⟨.white, panel⟩ : Scene).Quiet ∧
      (⟨.white, panel⟩ : Scene).Lends feeding 12 (.component [] .root) 0 ∧
      ((⟨.white, panel⟩ : Scene).walkFrom feeding 12 (.component [] .root) 0).ending =
        .fault .repeaterInUse ∧
      ((⟨.white, panel⟩ : Scene).turns feeding 12 (.component [] .root) 0).map
        (fun turn => (turn.sight.place, turn.fault?)) =
          [([], none), ([], none), ([], none), ([⟨0, 0⟩], some .repeaterInUse)] :=
  ⟨panel_quiet, lends_of_quiet ⟨.white, panel⟩ feeding 12 (.component [] .root) 0 panel_quiet,
    by decide, by decide⟩

end Scene

end RetainedScene
