import Mathlib.Logic.Function.Iterate
import RetainedScene.Proofs.Scene.Content

/-!
# Moved items

Changes of items and walks that pass through repeaters do not get in each other's way. So a
component in which items are moved one after the other is, whatever is held meanwhile, the old one
with each item moved as often as it occurs in the list.
-/

set_option autoImplicit false

namespace RetainedScene

/-- The owner of an item, and where the item is kept there. -/
structure Site where
  place : Place
  slot : Nat
deriving DecidableEq

/-- Changes at two positions, which are in no order. -/
theorem modify_comm {α : Type} {f g : α → α} {i j : Nat} (h : i = j → ∀ x, f (g x) = g (f x))
    (l : List α) : (l.modify j g).modify i f = (l.modify i f).modify j g := by
  apply List.ext_getElem?
  intro k
  simp only [List.getElem?_modify]
  cases l[k]? with
  | none => rfl
  | some x =>
    by_cases hi : i = k
    · by_cases hj : j = k
      · simp [hi, hj, h (hi.trans hj.symm) x]
      · simp [hi, hj]
    · simp [hi]

theorem modify_congr {α : Type} {f g : α → α} {i : Nat} {l : List α}
    (h : ∀ x, l[i]? = some x → f x = g x) : l.modify i f = l.modify i g := by
  apply List.ext_getElem?
  intro k
  rw [List.getElem?_modify, List.getElem?_modify]
  by_cases hk : i = k
  · subst hk
    cases hx : l[i]? with
    | none => rfl
    | some x => simp [h x hx]
  · simp [hk]

namespace Component

theorem modifyRepeater_comm {f g : Repeater Component → Repeater Component} {i j : Nat}
    (h : i = j → ∀ r, f (g r) = g (f r)) (c : Component) :
    (c.modifyRepeater j g).modifyRepeater i f = (c.modifyRepeater i f).modifyRepeater j g :=
  congrArg (fun repeaters => { c with repeaters }) (modify_comm h c.repeaters)

/-- Walks that pass through a repeater do not matter to an item. -/
theorem modifyItem_modifyWalks (c : Component) (place : Place) (slot : Nat) (f : Item → Item)
    (a : RepeaterAddress) (g : Nat → Nat) :
    (c.modifyRepeaterAt a fun r => { r with walks := g r.walks }).modifyItem place slot f =
      (c.modifyItem place slot f).modifyRepeaterAt a fun r => { r with walks := g r.walks } := by
  obtain ⟨owner, other⟩ := a
  induction place generalizing owner c with
  | nil => cases owner <;> rfl
  | cons branch rest ih =>
    cases owner with
    | nil =>
      refine modifyRepeater_comm (fun _ r => ?_) c
      rfl
    | cons next later =>
      refine modifyRepeater_comm (fun _ r => ?_) c
      exact congrArg (fun instances => { r with instances })
        (modify_comm (fun _ d => ih d later) r.instances)

theorem modify_modify (f g : Component → Component) (place : Place) (c : Component) :
    (c.modify g place).modify f place = c.modify (f ∘ g) place := by
  induction place generalizing c with
  | nil => rfl
  | cons branch rest ih =>
    simp only [modify, modifyRepeater, List.modify_modify_eq, Function.comp_def, ih]

theorem modifyRepeater_id {f : Repeater Component → Repeater Component} (h : ∀ r, f r = r)
    (slot : Nat) (c : Component) : c.modifyRepeater slot f = c := by
  have hid : f = id := funext h
  cases c
  rw [modifyRepeater, hid, List.modify_id]

theorem modify_id {f : Component → Component} (h : ∀ d, f d = d) (place : Place) (c : Component) :
    c.modify f place = c := by
  induction place generalizing c with
  | nil => exact h c
  | cons branch rest ih =>
    have hid : modify f rest = id := funext ih
    refine modifyRepeater_id (fun r => ?_) branch.repeater c
    rw [hid, List.modify_id]

theorem modifyWalks_cancel (c : Component) (a : RepeaterAddress) :
    (c.modifyRepeaterAt a fun r => { r with walks := r.walks + 1 }).modifyRepeaterAt a
      (fun r => { r with walks := r.walks - 1 }) = c := by
  rw [modifyRepeaterAt, modifyRepeaterAt, modify_modify]
  refine modify_id (fun d => ?_) a.owner c
  rw [Function.comp_apply, modifyRepeater, modifyRepeater, List.modify_modify_eq]
  exact modifyRepeater_id (fun _ => rfl) a.slot d

theorem item?_cons (c : Component) (branch : Branch) (rest : Place) (slot : Nat) :
    c.item? (branch :: rest) slot = (c.instance? branch).bind fun d => d.item? rest slot := by
  simp only [item?, get?]
  cases c.instance? branch <;> rfl

theorem item?_modifyItem (c : Component) (place : Place) (slot : Nat) (f : Item → Item)
    (p : Place) (k : Nat) : (c.modifyItem place slot f).item? p k =
      if place = p ∧ slot = k then (c.item? p k).map f else c.item? p k := by
  induction place generalizing p c with
  | nil =>
    cases p with
    | nil =>
      change (c.items.modify slot f)[k]? = if _ then (c.items[k]?).map f else c.items[k]?
      rw [List.getElem?_modify]
      cases c.items[k]? <;> by_cases hk : slot = k <;> simp [hk]
    | cons next later => rw [if_neg (by simp), item?_cons, item?_cons]; rfl
  | cons branch rest ih =>
    cases p with
    | nil => rw [if_neg (by simp)]; rfl
    | cons next later =>
      rw [item?_cons, item?_cons, modifyItem, instance?_modify]
      by_cases hnext : branch = next
      · subst next
        rw [if_pos rfl]
        cases c.instance? branch with
        | none => simp
        | some d =>
          rw [Option.map_some, Option.bind_some, Option.bind_some, ← modifyItem, ih d later]
          simp
      · rw [if_neg hnext, if_neg (by simp [hnext])]

theorem item?_modifyWalks (c : Component) (a : RepeaterAddress) (g : Nat → Nat) (p : Place)
    (k : Nat) :
    (c.modifyRepeaterAt a fun r => { r with walks := g r.walks }).item? p k = c.item? p k := by
  obtain ⟨owner, slot⟩ := a
  induction owner generalizing p c with
  | nil =>
    cases p with
    | nil => rfl
    | cons next later =>
      rw [item?_cons, item?_cons, modifyRepeaterAt, modify, instance?, instance?, modifyRepeater,
        List.getElem?_modify]
      cases c.repeaters[next.repeater]? with
      | none => rfl
      | some r => by_cases hslot : slot = next.repeater <;> simp [hslot]
  | cons branch rest ih =>
    cases p with
    | nil => rfl
    | cons next later =>
      rw [item?_cons, item?_cons, modifyRepeaterAt, instance?_modify]
      by_cases hnext : branch = next
      · subst next
        rw [if_pos rfl]
        cases c.instance? branch with
        | none => rfl
        | some d => exact ih d later
      · rw [if_neg hnext]

theorem modifyItem_congr {f g : Item → Item} {place : Place} {slot : Nat} {c : Component}
    (h : ∀ item, c.item? place slot = some item → f item = g item) :
    c.modifyItem place slot f = c.modifyItem place slot g := by
  induction place generalizing c with
  | nil => exact congrArg (fun items => { c with items }) (modify_congr h)
  | cons branch rest ih =>
    refine congrArg (fun repeaters => { c with repeaters }) (modify_congr fun r hr => ?_)
    refine congrArg (fun instances => { r with instances }) (modify_congr fun d hd => ih ?_)
    intro item hitem
    refine h item ?_
    rw [item?_cons, instance?, hr]
    simp [hd, hitem]

/-- The items of some sites moved, one after the other. -/
def moved (v : Vec2) (c : Component) (sites : List Site) : Component :=
  sites.foldl (fun c site => c.modifyItem site.place site.slot (·.translated v)) c

theorem moved_append (v : Vec2) (c : Component) (earlier later : List Site) :
    c.moved v (earlier ++ later) = (c.moved v earlier).moved v later :=
  List.foldl_append

theorem moved_modifyWalks (v : Vec2) (c : Component) (sites : List Site) (a : RepeaterAddress)
    (g : Nat → Nat) :
    (c.modifyRepeaterAt a fun r => { r with walks := g r.walks }).moved v sites =
      (c.moved v sites).modifyRepeaterAt a fun r => { r with walks := g r.walks } := by
  induction sites generalizing c with
  | nil => rfl
  | cons site rest ih =>
    rw [moved, List.foldl_cons, modifyItem_modifyWalks]
    exact ih (c.modifyItem site.place site.slot (·.translated v))

/-- Each item has been moved as often as its site is in the list. -/
theorem item?_moved (v : Vec2) (c : Component) (sites : List Site) (place : Place) (slot : Nat) :
    (c.moved v sites).item? place slot =
      (c.item? place slot).map (·.translated v)^[sites.count ⟨place, slot⟩] := by
  induction sites generalizing c with
  | nil => simp [moved]
  | cons site rest ih =>
    rw [moved, List.foldl_cons, ← moved, ih, item?_modifyItem, List.count_cons]
    by_cases hsite : site = ⟨place, slot⟩
    · subst hsite
      simp [Option.map_map, Function.iterate_succ]
    · have hne : ¬ (site.place = place ∧ site.slot = slot) := by
        rintro ⟨rfl, rfl⟩
        exact hsite rfl
      rw [if_neg hne, if_neg (by simpa using hsite), Nat.add_zero]

end Component

end RetainedScene
