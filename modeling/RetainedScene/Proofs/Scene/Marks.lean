import RetainedScene.Proofs.Scene.RootWalk
import RetainedScene.Proofs.Scene.WellFormed

/-!
# What a walk comes by

A mark tells that a node was entered or that its item was shown. A walk that is never told to skip
or to stop leaves the marks of its outline, and in a well-formed tree these are, in some order, the
marks of the nodes of the array, a dynamic node having those of its instances with it.
-/

set_option autoImplicit false

namespace RetainedScene

inductive Mark
  | entered (place : Place) (index : Nat)
  | shown (place : Place) (index slot : Nat)
deriving DecidableEq

namespace Mark

def place : Mark → Place
  | entered place _ => place
  | shown place _ _ => place

def index : Mark → Nat
  | entered _ index => index
  | shown _ index _ => index

def isShown : Mark → Bool
  | entered _ _ => false
  | shown _ _ _ => true

end Mark

def Event.mark : Event → Mark
  | enter place index => .entered place index
  | call made => .shown made.sight.place made.sight.index made.sight.slot

theorem Call.Shows.mark {call : Call} {place : Place} {index slot : Nat}
    (h : call.Shows place index slot) : (Event.call call).mark = .shown place index slot := by
  obtain ⟨hplace, hindex, hslot, -⟩ := h
  rw [Event.mark, hplace, hindex, hslot]

namespace Outline

mutual

def marks : Outline → List Mark
  | item place index slot below => .entered place index :: .shown place index slot :: allMarks below
  | dynamic place index instances => .entered place index :: allMarks instances
  | missing place index => [.entered place index]

def allMarks : List Outline → List Mark
  | [] => []
  | o :: rest => marks o ++ allMarks rest

end

theorem allMarks_eq_flatMap (os : List Outline) : allMarks os = os.flatMap marks := by
  induction os with
  | nil => rfl
  | cons o rest ih => rw [allMarks, ih, List.flatMap_cons]

theorem marks_item (place : Place) (index slot : Nat) (below : List Outline) :
    (item place index slot below).marks =
      [.entered place index, .shown place index slot] ++ below.flatMap marks := by
  rw [marks, allMarks_eq_flatMap]
  rfl

theorem marks_dynamic (place : Place) (index : Nat) (instances : List Outline) :
    (dynamic place index instances).marks =
      .entered place index :: instances.flatMap marks := by
  rw [marks, allMarks_eq_flatMap]

end Outline

theorem Course.marks_eq {os : List Outline} {events : List Event} {ending : Ending}
    (h : Course os events ending) (whole : ∀ o ∈ os, o.Whole)
    (descends : ∀ call ∈ events.filterMap Event.call?, call.action = .descend) :
    ending = .completed ∧ events.map Event.mark = os.flatMap Outline.marks := by
  induction h with
  | done => exact ⟨rfl, rfl⟩
  | missing => cases whole _ List.mem_cons_self
  | dynamic _ ih =>
    obtain ⟨hending, hmarks⟩ := ih (Outline.whole_instances whole) descends
    refine ⟨hending, ?_⟩
    rw [List.map_cons, hmarks, List.flatMap_append, List.flatMap_cons, Outline.marks_dynamic]
    rfl
  | descend shows _ _ ih =>
    obtain ⟨hending, hmarks⟩ := ih (Outline.whole_below whole)
      fun call hcall => descends call (List.mem_cons_of_mem _ hcall)
    refine ⟨hending, ?_⟩
    rw [List.map_cons, List.map_cons, hmarks, shows.mark, List.flatMap_append, List.flatMap_cons,
      Outline.marks_item, Event.mark]
    simp
  | skip _ answer _ _ =>
    have := descends _ List.mem_cons_self
    rw [answer] at this
    cases this
  | abort _ answer =>
    have := descends _ List.mem_cons_self
    rw [answer] at this
    cases this

namespace Component

def ownMarks (c : Component) (place : Place) (index : Nat) : List Mark :=
  match c.tree[index]? with
  | none => []
  | some (.item slot _ _) => [.entered place index, .shown place index slot]
  | some (.dynamic slot) =>
    .entered place index :: (c.outlinesOf place slot).flatMap Outline.marks

theorem marks_outlineAt {c : Component} (h : c.Forward) (place : Place) {index : Nat}
    (hindex : index < c.tree.length) :
    (c.outlineAt place index).marks = c.ownMarks place index ++
      (c.children index).flatMap fun child => (c.outlineAt place child).marks := by
  have hnode := List.getElem?_eq_getElem hindex
  cases hn : c.tree[index] with
  | dynamic slot =>
    rw [hn] at hnode
    simp only [outlineAt_dynamic place hnode, ownMarks, children, hnode, Outline.marks_dynamic]
    exact (List.append_nil _).symm
  | item slot first count =>
    rw [hn] at hnode
    rw [outlineAt_item place hnode (h.after hnode), Outline.marks_item, List.flatMap_map,
      children_item hnode, ownMarks, hnode]

/-- The walk of a well-formed tree comes by each node of the array once. -/
theorem perm_marks {c : Component} (h : c.WellFormed) (place : Place) :
    ((c.roots place).flatMap Outline.marks).Perm
      ((List.range c.tree.length).flatMap (c.ownMarks place)) := by
  rw [roots_eq]
  cases ht : c.tree with
  | nil => exact .nil
  | cons node rest =>
    have hpos : 0 < c.tree.length := by simp [ht]
    have hroot := h.perm_root hpos fun index hindex =>
      marks_outlineAt h.founded.toForward place hindex
    rw [ht] at hroot
    simpa using hroot

/-- Marks of an instance lie deeper than those of the component that it belongs to. -/
theorem length_le_of_mem_marks {c : Component} (h : c.Throughout WellFormed) {place : Place}
    {mark : Mark} (hmark : mark ∈ (c.roots place).flatMap Outline.marks) :
    place.length ≤ mark.place.length := by
  induction h generalizing place mark with
  | @intro c here _ ih =>
    obtain ⟨index, -, hmark⟩ := List.mem_flatMap.mp ((perm_marks here place).mem_iff.mp hmark)
    rw [ownMarks] at hmark
    split at hmark
    · simp at hmark
    · simp only [List.mem_cons, List.not_mem_nil, or_false] at hmark
      rcases hmark with rfl | rfl <;> exact Nat.le_refl _
    · rename_i slot hnode
      rcases List.mem_cons.mp hmark with rfl | hmark
      · exact Nat.le_refl _
      · obtain ⟨o, ho, hmark⟩ := List.mem_flatMap.mp hmark
        obtain ⟨r, d, position, hr, hd, ho⟩ := mem_outlinesOf ho
        have hle := ih hnode hr hd (List.mem_flatMap.mpr ⟨o, ho, hmark⟩)
        rw [RepeaterAddress.instancePlace, List.length_append] at hle
        exact Nat.le_of_add_right_le hle

def staticMarks (c : Component) (place : Place) (index : Nat) : List Mark :=
  match c.tree[index]? with
  | none => []
  | some (.item slot _ _) => [.entered place index, .shown place index slot]
  | some (.dynamic _) => [.entered place index]

theorem index_of_mem_staticMarks {c : Component} {place : Place} {index : Nat} {mark : Mark}
    (h : mark ∈ c.staticMarks place index) : mark.index = index := by
  rw [staticMarks] at h
  split at h
  · simp at h
  · simp only [List.mem_cons, List.not_mem_nil, or_false] at h
    rcases h with rfl | rfl <;> rfl
  · obtain rfl := List.mem_singleton.mp h
    rfl

theorem filter_ownMarks {c : Component} (h : c.Throughout WellFormed) (place : Place)
    (index : Nat) : (c.ownMarks place index).filter (fun mark => mark.place = place) =
      c.staticMarks place index := by
  rw [ownMarks, staticMarks]
  split
  · rfl
  · simp [Mark.place]
  · rename_i slot hnode
    have hdeeper : ((c.outlinesOf place slot).flatMap Outline.marks).filter
        (fun mark => mark.place = place) = [] := by
      refine List.filter_eq_nil_iff.mpr fun mark hmark hplace => ?_
      obtain ⟨o, ho, hmark⟩ := List.mem_flatMap.mp hmark
      obtain ⟨r, d, position, hr, hd, ho⟩ := mem_outlinesOf ho
      have hle := length_le_of_mem_marks (h.generated hnode hr hd)
        (List.mem_flatMap.mpr ⟨o, ho, hmark⟩)
      rw [of_decide_eq_true hplace, RepeaterAddress.instancePlace, List.length_append] at hle
      exact Nat.not_succ_le_self _ hle
    rw [List.filter_cons_of_pos (by simp [Mark.place]), hdeeper]

/-- Of the marks at its place, the walk of a well-formed tree leaves each once. -/
theorem perm_staticMarks {c : Component} (h : c.Throughout WellFormed) (place : Place) :
    (((c.roots place).flatMap Outline.marks).filter fun mark => mark.place = place).Perm
      ((List.range c.tree.length).flatMap (c.staticMarks place)) := by
  have hown : ((List.range c.tree.length).flatMap (c.ownMarks place)).filter
      (fun mark => mark.place = place) =
        (List.range c.tree.length).flatMap (c.staticMarks place) := by
    rw [List.filter_flatMap]
    exact List.flatMap_congr fun index _ => filter_ownMarks h place index
  rw [← hown]
  exact (perm_marks h.here place).filter _

theorem nodup_staticMarks (c : Component) (place : Place) :
    ((List.range c.tree.length).flatMap (c.staticMarks place)).Nodup := by
  refine List.nodup_flatMap.mpr ⟨fun index _ => ?_, ?_⟩
  · rw [staticMarks]
    split <;> simp
  · refine List.nodup_range.imp fun hne mark ha hb => hne ?_
    exact (index_of_mem_staticMarks ha).symm.trans (index_of_mem_staticMarks hb)

theorem count_marks {c : Component} (h : c.Throughout WellFormed) {place : Place} {index : Nat}
    {mark : Mark} (hplace : mark.place = place) (hindex : index < c.tree.length)
    (hmark : mark ∈ c.staticMarks place index) :
    ((c.roots place).flatMap Outline.marks).count mark = 1 := by
  rw [← List.count_filter (p := fun mark => mark.place = place) (decide_eq_true hplace),
    (perm_staticMarks h place).count_eq]
  exact List.count_eq_one_of_mem (c.nodup_staticMarks place)
    (List.mem_flatMap.mpr ⟨index, List.mem_range.mpr hindex, hmark⟩)

end Component

end RetainedScene
