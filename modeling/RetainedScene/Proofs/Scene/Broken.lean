import RetainedScene.Proofs.Scene.Marks
import RetainedScene.Proofs.Scene.Starts

/-!
# Walks of broken trees

The spans of a tree may run past the end of its array. A walk of such a tree fails when it enters a
node that is not there, and only then. Up to that point it follows the outline as the answers of its
visitor have it, and if the answers lead past all such nodes, it ends like any other walk.
-/

set_option autoImplicit false

namespace RetainedScene

variable {μ : Type}

namespace Outline

variable {root : Component} {place : Place} {index : Nat}

theorem item_not_beyond {slot : Nat} {below : List Outline}
    (h : (item place index slot below).Located root) : ¬ root.Beyond place index :=
  fun beyond => Outline.noConfusion (Component.missing_of_beyond h beyond)

theorem dynamic_not_beyond {instances : List Outline}
    (h : (dynamic place index instances).Located root) : ¬ root.Beyond place index :=
  fun beyond => Outline.noConfusion (Component.missing_of_beyond h beyond)

end Outline

namespace Course

variable {root : Component} {os : List Outline} {events events' : List Event}
  {ending ending' : Ending}

/-- What is shown and how it ends is fixed by the outlines and the answers. -/
theorem unique (h : Course os events ending) (h' : Course os events' ending')
    (answers : (events.filterMap Event.call?).map Call.action =
      (events'.filterMap Event.call?).map Call.action) :
    events.map Event.mark = events'.map Event.mark ∧ ending = ending' := by
  -- The outlines tell which node comes next, and the first answer which step follows it.
  induction h generalizing events' ending' with
  | done =>
    cases h'
    exact ⟨rfl, rfl⟩
  | missing =>
    cases h'
    exact ⟨rfl, rfl⟩
  | dynamic _ ih =>
    cases h' with
    | dynamic h' =>
      obtain ⟨hmarks, hending⟩ := ih h' answers
      exact ⟨congrArg (Mark.entered _ _ :: ·) hmarks, hending⟩
  | descend shows answer _ ih =>
    cases h' with
    | descend shows' _ h' =>
      obtain ⟨hmarks, hending⟩ := ih h' (List.cons.inj answers).2
      exact ⟨by simp only [List.map_cons, shows.mark, shows'.mark, hmarks], hending⟩
    | skip _ answer' _ => cases answer.symm.trans ((List.cons.inj answers).1.trans answer')
    | abort _ answer' => cases answer.symm.trans ((List.cons.inj answers).1.trans answer')
  | skip shows answer _ ih =>
    cases h' with
    | skip shows' _ h' =>
      obtain ⟨hmarks, hending⟩ := ih h' (List.cons.inj answers).2
      exact ⟨by simp only [List.map_cons, shows.mark, shows'.mark, hmarks], hending⟩
    | descend _ answer' _ => cases answer.symm.trans ((List.cons.inj answers).1.trans answer')
    | abort _ answer' => cases answer.symm.trans ((List.cons.inj answers).1.trans answer')
  | abort shows answer =>
    cases h' with
    | abort shows' _ =>
      exact ⟨by simp only [List.map_cons, shows.mark, shows'.mark], rfl⟩
    | descend _ answer' _ => cases answer.symm.trans ((List.cons.inj answers).1.trans answer')
    | skip _ answer' _ => cases answer.symm.trans ((List.cons.inj answers).1.trans answer')

theorem of_nil (h : Course [] events ending) : ending = .completed ∧ events = [] := by
  cases h
  exact ⟨rfl, rfl⟩

theorem ending_cases (h : Course os events ending) :
    ending = .completed ∨ ending = .aborted ∨ ending = .fault .indexOutOfRange := by
  induction h with
  | done => exact .inl rfl
  | missing => exact .inr (.inr rfl)
  | dynamic _ ih => exact ih
  | descend _ _ _ ih => exact ih
  | skip _ _ _ ih => exact ih
  | abort => exact .inr (.inl rfl)

section

variable {place p : Place} {index i : Nat} {after : List Event}

theorem exists_beyond_enter (there : ¬ root.Beyond place index) :
    (∃ p i, .enter p i ∈ .enter place index :: events ∧ root.Beyond p i) ↔
      ∃ p i, .enter p i ∈ events ∧ root.Beyond p i := by
  refine exists_congr fun p => exists_congr fun i => ⟨?_, .imp_left (.tail _)⟩
  rintro ⟨_ | ⟨_, hmem⟩, beyond⟩
  · exact absurd beyond there
  · exact ⟨hmem, beyond⟩

theorem exists_beyond_call (call : Call) :
    (∃ p i, .enter p i ∈ .call call :: events ∧ root.Beyond p i) ↔
      ∃ p i, .enter p i ∈ events ∧ root.Beyond p i := by
  simp only [List.mem_cons, reduceCtorEq, false_or]

theorem suffix_of_enter (there : ¬ root.Beyond place index) (beyond : root.Beyond p i)
    (h : .enter p i :: after <:+ .enter place index :: events) :
    .enter p i :: after <:+ events := by
  rcases List.suffix_cons_iff.mp h with h | h
  · cases h
    exact absurd beyond there
  · exact h

theorem suffix_of_call {call : Call} (h : .enter p i :: after <:+ .call call :: events) :
    .enter p i :: after <:+ events :=
  (List.suffix_cons_iff.mp h).resolve_left (by simp)

end

theorem faults_iff (h : Course os events ending)
    (located : ∀ o ∈ os, o.All (Outline.Located root)) :
    ending = .fault .indexOutOfRange ↔
      ∃ place index, .enter place index ∈ events ∧ root.Beyond place index := by
  induction h with
  | done => simp
  | @missing place index rest =>
    have beyond := Component.beyond_of_missing (located _ List.mem_cons_self).here
    exact ⟨fun _ => ⟨place, index, List.mem_cons_self, beyond⟩, fun _ => rfl⟩
  | dynamic _ ih =>
    have there := Outline.dynamic_not_beyond (located _ List.mem_cons_self).here
    rw [exists_beyond_enter there, ih (Outline.all_instances located)]
  | descend _ _ _ ih =>
    have there := Outline.item_not_beyond (located _ List.mem_cons_self).here
    rw [exists_beyond_enter there, exists_beyond_call, ih (Outline.all_below located)]
  | skip _ _ _ ih =>
    have there := Outline.item_not_beyond (located _ List.mem_cons_self).here
    rw [exists_beyond_enter there, exists_beyond_call, ih fun o ho => located o (.tail _ ho)]
  | abort =>
    have there := Outline.item_not_beyond (located _ List.mem_cons_self).here
    rw [exists_beyond_enter there, exists_beyond_call]
    simp

/-- Nothing happens after a node that is not there is entered. -/
theorem beyond_last (h : Course os events ending)
    (located : ∀ o ∈ os, o.All (Outline.Located root)) {after : List Event} {place : Place}
    {index : Nat} (later : .enter place index :: after <:+ events)
    (beyond : root.Beyond place index) : after = [] := by
  induction h with
  | done => simp at later
  | missing =>
    rcases List.suffix_cons_iff.mp later with hlast | hnil
    · exact (List.cons.inj hlast).2
    · simp at hnil
  | dynamic _ ih =>
    have there := Outline.dynamic_not_beyond (located _ List.mem_cons_self).here
    exact ih (Outline.all_instances located) (suffix_of_enter there beyond later)
  | descend _ _ _ ih =>
    have there := Outline.item_not_beyond (located _ List.mem_cons_self).here
    exact ih (Outline.all_below located) (suffix_of_call (suffix_of_enter there beyond later))
  | skip _ _ _ ih =>
    have there := Outline.item_not_beyond (located _ List.mem_cons_self).here
    exact ih (fun o ho => located o (.tail _ ho))
      (suffix_of_call (suffix_of_enter there beyond later))
  | abort =>
    have there := Outline.item_not_beyond (located _ List.mem_cons_self).here
    have hnil := suffix_of_call (suffix_of_enter there beyond later)
    simp at hnil

end Course

namespace Scene

/-- The outlines of a start are those of the reference: `course` and `unique` say that the walk
    follows them as its own answers have it. -/
structure BreaksAtBeyond (s : Scene) (place : Place) (c : Component) (visitor : Visitor μ)
    (depth : Nat) (start : Start) (memory : μ) : Prop where
  traced : (s.trace visitor depth place start memory).withMemory Traced.memory =
    s.walk visitor depth place start memory
  course (os : List Outline) : c.begins place start = .ok os →
    Course os (s.trace visitor depth place start memory).events
      (s.walk visitor depth place start memory).ending
  unique (os : List Outline) (events : List Event) (ending : Ending) :
    c.begins place start = .ok os → Course os events ending →
      (events.filterMap Event.call?).map Call.action =
        (s.trace visitor depth place start memory).calls.map Call.action →
      (s.trace visitor depth place start memory).events.map Event.mark = events.map Event.mark ∧
        (s.walk visitor depth place start memory).ending = ending
  faults_iff (os : List Outline) : c.begins place start = .ok os →
    ((s.walk visitor depth place start memory).ending = .fault .indexOutOfRange ↔
      ∃ p i, .enter p i ∈ (s.trace visitor depth place start memory).events ∧ s.root.Beyond p i)
  beyond_last (before after : List Event) (p : Place) (i : Nat) :
    (s.trace visitor depth place start memory).events = before ++ .enter p i :: after →
      s.root.Beyond p i → after = []
  otherwise (os : List Outline) : c.begins place start = .ok os →
    (∀ p i, .enter p i ∈ (s.trace visitor depth place start memory).events → ¬ s.root.Beyond p i) →
      (s.walk visitor depth place start memory).ending = .completed ∨
        (s.walk visitor depth place start memory).ending = .aborted
  root_empty : start = .root → c.tree = [] →
    (s.walk visitor depth place start memory).ending = .completed ∧
      (s.trace visitor depth place start memory).events = []
  childrenOf_beyond (index : Nat) : start = .childrenOf index → c.tree.length ≤ index →
    (s.walk visitor depth place start memory).ending = .fault .indexOutOfRange ∧
      (s.trace visitor depth place start memory).events = []
  childrenOf_dynamic (index slot : Nat) : start = .childrenOf index →
    c.tree[index]? = some (.dynamic slot) →
      (s.walk visitor depth place start memory).ending = .fault (.dynamicStart index) ∧
        (Fault.dynamicStart index).message =
          s!"VisitFrom::ChildrenOf({index}) names a dynamic node" ∧
        (s.trace visitor depth place start memory).events = []

theorem breaksAtBeyond_of_forward (s : Scene) (place : Place) (c : Component)
    (visitor : Visitor μ) (depth : Nat) (start : Start) (memory : μ)
    (hplace : s.root.get? place = some c) (hc : c.Throughout Component.Forward)
    (leaves : visitor.LeavesRepeaters) (hdepth : c.size ≤ depth) :
    s.BreaksAtBeyond place c visitor depth start memory := by
  have htraced := s.trace_untraced visitor depth place start memory
  have hending : (s.walk visitor depth place start memory).ending =
      (s.trace visitor depth place start memory).ending := by
    rw [← htraced]
    rfl
  have hcourse {os : List Outline} (hos : c.begins place start = .ok os) :=
    trace_begins memory hplace hc leaves hdepth hos
  have hrefused {fault : Fault} (h : c.begins place start = .error fault) :=
    trace_refused visitor depth memory hplace h
  rw [← hending] at hcourse hrefused
  refine {
    traced := htraced
    course := fun os hos => hcourse hos
    unique := fun os events ending hos h answers => (hcourse hos).unique h answers.symm
    faults_iff := fun os hos =>
      (hcourse hos).faults_iff (Component.begins_located hplace hc hos)
    beyond_last := ?_
    otherwise := ?_
    root_empty := ?_
    childrenOf_beyond := ?_
    childrenOf_dynamic := ?_ }
  · intro before after p i hevents beyond
    cases hos : c.begins place start with
    | ok os =>
      exact (hcourse hos).beyond_last (Component.begins_located hplace hc hos)
        ⟨before, hevents.symm⟩ beyond
    | error fault =>
      rw [(hrefused hos).2] at hevents
      simp at hevents
  · intro os hos inside
    have located := Component.begins_located hplace hc hos
    rcases (hcourse hos).ending_cases with h | h | h
    · exact .inl h
    · exact .inr h
    · obtain ⟨p, i, hmem, beyond⟩ := ((hcourse hos).faults_iff located).mp h
      exact absurd beyond (inside p i hmem)
  · rintro rfl hempty
    have hos : c.begins place .root = .ok [] := by
      rw [Component.begins, Component.roots_eq, hempty]
      rfl
    exact (hcourse hos).of_nil
  · rintro index rfl hlength
    refine hrefused ?_
    rw [Component.begins, List.getElem?_eq_none hlength]
  · rintro index slot rfl hnode
    have hos : c.begins place (.childrenOf index) = .error (.dynamicStart index) := by
      rw [Component.begins, hnode]
    obtain ⟨hfault, hevents⟩ := hrefused hos
    exact ⟨hfault, rfl, hevents⟩

/-- A row whose label is missing. -/
def torn : Component :=
  { row with tree := [.item 0 1 1] }

/-- A header, two rows of which the second is torn, and a footer that is missing. -/
def tornPanel : Component :=
  { panel with
    tree := [.item 0 1 3, .item 1 0 0, .dynamic 0]
    repeaters := [{ instances := [row, { torn with index := 1 }] }] }

theorem tornPanel_forward : tornPanel.Throughout Component.Forward := by
  refine .of_all (Component.forward_of_nodes (by decide)) ?_
  simp only [tornPanel, forall_eq, List.mem_cons, List.not_mem_nil, or_false, forall_eq_or_imp]
  exact ⟨.of_all (Component.forward_of_nodes (by decide)) (by simp [row]),
    .of_all (Component.forward_of_nodes (by decide)) (by simp [torn, row])⟩

/-- The label is skipped, and the footer is not. -/
theorem tornPanel_breaks :
    (⟨.white, tornPanel⟩ : Scene).root.get? [] = some tornPanel ∧
      tornPanel.Throughout Component.Forward ∧
      (answering [.descend, .descend, .descend, .descend, .skipChildren]).LeavesRepeaters ∧
      tornPanel.size ≤ 12 ∧
      (⟨.white, tornPanel⟩ : Scene).BreaksAtBeyond [] tornPanel
        (answering [.descend, .descend, .descend, .descend, .skipChildren]) 12 .root 0 ∧
      ((⟨.white, tornPanel⟩ : Scene).trace
        (answering [.descend, .descend, .descend, .descend, .skipChildren])
        12 [] .root 0).events.map Event.mark =
          [.entered [] 0, .shown [] 0 0, .entered [] 1, .shown [] 1 1, .entered [] 2,
            .entered [⟨0, 0⟩] 0, .shown [⟨0, 0⟩] 0 0, .entered [⟨0, 0⟩] 1, .shown [⟨0, 0⟩] 1 1,
            .entered [⟨0, 1⟩] 0, .shown [⟨0, 1⟩] 0 0, .entered [] 3] :=
  have leaves : (answering [.descend, .descend, .descend, .descend, .skipChildren]
      ).LeavesRepeaters := fun _ _ _ _ _ h => absurd h List.not_mem_nil
  ⟨rfl, tornPanel_forward, leaves, by decide,
    breaksAtBeyond_of_forward ⟨.white, tornPanel⟩ [] tornPanel _ 12 .root 0 rfl tornPanel_forward
      leaves (by decide),
    by decide⟩

end Scene

end RetainedScene
