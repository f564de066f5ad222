import RetainedScene.Proofs.Scene.Course

/-!
# Walks from the root

The walk of a component from its root, for any visitor that leaves the repeaters alone: it ends,
it shows the items of the outline in pre-order as far as the answers allow, and it is aborted
exactly when an answer says so.
-/

set_option autoImplicit false

namespace RetainedScene

variable {μ : Type}

namespace Course

variable {os : List Outline} {events : List Event} {ending : Ending}

theorem abort_last (h : Course os events ending) {before after : List Call} {call : Call}
    (hcalls : events.filterMap Event.call? = before ++ call :: after)
    (habort : call.action = .abort) : after = [] := by
  induction h generalizing before with
  | done => simp at hcalls
  | missing =>
    have hnone : [] = before ++ call :: after := hcalls
    simp at hnone
  | dynamic _ ih => exact ih hcalls
  | descend _ answer _ ih =>
    cases before with
    | nil =>
      obtain ⟨rfl, -⟩ := List.cons.inj hcalls
      rw [answer] at habort
      cases habort
    | cons _ before => exact ih (List.cons.inj hcalls).2
  | skip _ answer _ ih =>
    cases before with
    | nil =>
      obtain ⟨rfl, -⟩ := List.cons.inj hcalls
      rw [answer] at habort
      cases habort
    | cons _ before => exact ih (List.cons.inj hcalls).2
  | abort =>
    cases before with
    | nil => exact (List.cons.inj hcalls).2.symm
    | cons _ before =>
      have hnone : [] = before ++ call :: after := (List.cons.inj hcalls).2
      simp at hnone

theorem aborted_iff (h : Course os events ending) :
    ending = .aborted ↔ ∃ call ∈ events.filterMap Event.call?, call.action = .abort := by
  induction h with
  | done => simp
  | missing => simp [Event.call?]
  | dynamic _ ih => exact ih
  | descend _ answer _ ih => simpa [Event.call?, answer] using ih
  | skip _ answer _ ih => simpa [Event.call?, answer] using ih
  | abort _ answer => simp [Event.call?, answer]

theorem ends (h : Course os events ending) (whole : ∀ o ∈ os, o.Whole) :
    ending = .completed ∨ ending = .aborted := by
  induction h with
  | done => exact .inl rfl
  | missing => cases whole _ List.mem_cons_self
  | dynamic _ ih => exact ih (Outline.whole_instances whole)
  | descend _ _ _ ih => exact ih (Outline.whole_below whole)
  | skip _ _ _ ih => exact ih fun o ho => whole o (List.mem_cons_of_mem _ ho)
  | abort => exact .inr rfl

end Course

namespace Walk

theorem follows_owners {frames : Place → Option Frame} {os : List Outline}
    {steps : Walk (Traced μ) → Outcome (Traced μ)} (h : Follows frames os steps)
    (owners : List RepeaterAddress) : Follows frames os (owners.foldr holding steps) := by
  induction owners with
  | nil => exact h
  | cons a rest ih => exact follows_holding a ih

end Walk

namespace Scene

theorem trace_course {s : Scene} {place : Place} {c : Component} {visitor : Visitor μ}
    {depth : Nat} (memory : μ) (hplace : s.root.get? place = some c)
    (hc : c.Throughout Component.Forward) (leaves : visitor.LeavesRepeaters)
    (hdepth : c.size ≤ depth) :
    Course (c.roots place) (s.trace visitor depth place .root memory).events
      (s.trace visitor depth place .root memory).ending := by
  have hpos : 0 < depth := by
    have := c.size_eq
    omega
  have hroot : Walk.Follows s.root.frames (c.roots place)
      (fun w => w.start (Walk.tracedNode visitor depth) place .root) :=
    Walk.follows_fromRoot hplace fun _ => Walk.follows_tracedNode leaves hplace hc hdepth hpos
  obtain ⟨events, -, hevents, hcourse⟩ :=
    Walk.follows_owners hroot (Place.owners place) ⟨s, memory, []⟩ rfl
  have hall : (s.trace visitor depth place .root memory).events = events := by
    rw [Walk.Outcome.events, trace, walkBy, hevents]
    simp
  rw [hall]
  exact hcourse

structure WalksOutline (s : Scene) (place : Place) (c : Component) (visitor : Visitor μ)
    (depth : Nat) (memory : μ) : Prop where
  traced : (s.trace visitor depth place .root memory).withMemory Traced.memory =
    s.walk visitor depth place .root memory
  course : Course (c.roots place) (s.trace visitor depth place .root memory).events
    (s.trace visitor depth place .root memory).ending
  abort_last (before : List Call) (call : Call) (after : List Call) :
    (s.trace visitor depth place .root memory).calls = before ++ call :: after →
      call.action = .abort → after = []
  aborted_iff : (s.walk visitor depth place .root memory).ending = .aborted ↔
    ∃ call ∈ (s.trace visitor depth place .root memory).calls, call.action = .abort
  /-- It does not end in a fault, and its depth is enough. -/
  ends : (s.walk visitor depth place .root memory).ending = .completed ∨
    (s.walk visitor depth place .root memory).ending = .aborted

theorem walksOutline_of_founded (s : Scene) (place : Place) (c : Component)
    (visitor : Visitor μ) (depth : Nat) (memory : μ) (hplace : s.root.get? place = some c)
    (hc : c.Throughout Component.Founded) (leaves : visitor.LeavesRepeaters)
    (hdepth : c.size ≤ depth) : s.WalksOutline place c visitor depth memory := by
  have hcourse := trace_course memory hplace (hc.imp fun _ h => h.toForward) leaves hdepth
  have htraced := s.trace_untraced visitor depth place .root memory
  have hending : (s.walk visitor depth place .root memory).ending =
      (s.trace visitor depth place .root memory).ending := by
    rw [← htraced]
    rfl
  refine ⟨htraced, hcourse, fun _ _ _ h => hcourse.abort_last h, ?_, ?_⟩
  · rw [hending]
    exact hcourse.aborted_iff
  · rw [hending]
    exact hcourse.ends (Component.whole_roots hc place)

/-- A frame with a label in it. -/
def row : Component where
  index := 0
  items := [.rectangle {}, .text { text := "row" }]
  tree := [.item 0 1 1, .item 1 0 0]
  repeaters := []

/-- A header with a title, two rows, and a footer. -/
def panel : Component where
  index := 0
  items := [.rectangle {}, .rectangle {}, .rectangle {}, .text { text := "title" }]
  tree := [.item 0 1 3, .item 1 4 1, .dynamic 0, .item 2 0 0, .item 3 0 0]
  repeaters := [{ instances := [row, { row with index := 1 }] }]

theorem panel_founded : panel.Throughout Component.Founded := by
  refine .of_all (by decide) ?_
  simp only [panel, forall_eq, List.mem_cons, List.not_mem_nil, or_false,
    forall_eq_or_imp]
  exact ⟨.of_all (by decide) (by simp [row]), .of_all (by decide) (by simp [row])⟩

def answering (answers : List Action) : Visitor Nat := fun seen _ _ =>
  ⟨seen + 1, [], answers.getD seen .descend⟩

theorem panel_walksOutline :
    (⟨.white, panel⟩ : Scene).root.get? [] = some panel ∧ panel.Throughout Component.Founded ∧
      (answering [.descend, .skipChildren, .skipChildren, .descend, .abort]).LeavesRepeaters ∧
      panel.size ≤ 12 ∧
      (⟨.white, panel⟩ : Scene).WalksOutline [] panel
        (answering [.descend, .skipChildren, .skipChildren, .descend, .abort]) 12 0 ∧
      ((⟨.white, panel⟩ : Scene).trace
        (answering [.descend, .skipChildren, .skipChildren, .descend, .abort])
        12 [] .root 0).calls.map (fun call => (call.sight.place, call.sight.index)) =
          [([], 0), ([], 1), ([⟨0, 0⟩], 0), ([⟨0, 1⟩], 0), ([⟨0, 1⟩], 1)] :=
  have leaves : (answering [.descend, .skipChildren, .skipChildren, .descend, .abort]
      ).LeavesRepeaters := fun _ _ _ _ _ h => absurd h List.not_mem_nil
  ⟨rfl, panel_founded, leaves, by decide,
    walksOutline_of_founded ⟨.white, panel⟩ [] panel _ 12 0 rfl panel_founded leaves (by decide),
    by decide⟩

end Scene

end RetainedScene
