import RetainedScene.Proofs.Scene.Borrowing
import RetainedScene.Proofs.Scene.Marks
import RetainedScene.Proofs.Scene.Turns

/-!
# Tours of a scene that changes on the way

A tour comes to nodes in pre-order, and replaces each dynamic node by what its repeater holds at
that moment. What the visitor changes later is not seen in it any more, and what it changes earlier
is. Apart from the repeaters that are changed, two tours of one scene show the same.
-/

set_option autoImplicit false

namespace RetainedScene

/-- A node to come to, of a component as it was found when its repeater was entered. -/
structure Stop where
  place : Place
  trunk : Trunk
  index : Nat

namespace Stop

def node? (stop : Stop) : Option Node :=
  stop.trunk.tree[stop.index]?

def below (stop : Stop) : List Stop :=
  (stop.node?.elim [] Node.children).map fun child => { stop with index := child }

end Stop

def RepeaterAddress.stops (a : RepeaterAddress) (instances : List Trunk) : List Stop :=
  instances.mapIdx fun position trunk => ⟨a.instancePlace position, trunk, 0⟩

/-- What each repeater of a scene holds. -/
abbrev Holdings := RepeaterAddress → Option (List Trunk)

namespace Turn

/-- The scene that the edits of a turn leave behind. -/
def after (turn : Turn) : Scene :=
  (turn.scene.applyAll turn.edits).1

/-- The visitor is shown the item of a stop, as it is kept at that moment. -/
structure At (turn : Turn) (stop : Stop) (slot : Nat) : Prop where
  atPlace : turn.sight.place = stop.place
  atIndex : turn.sight.index = stop.index
  atSlot : turn.sight.slot = slot
  item : stop.trunk.items[slot]? = some (turn.sight.item.withGeometry .zero)
  kept : turn.scene.root.item? stop.place slot = some turn.sight.item

def mark (turn : Turn) : Mark :=
  .shown turn.sight.place turn.sight.index turn.sight.slot

end Turn

/-- From what the repeaters hold at first and the nodes to come to: what the visitor is shown, how
    that ends, and what the repeaters hold then. -/
inductive Tour : Holdings → List Stop → List Turn → Ending → Holdings → Prop
  | done {h : Holdings} : Tour h [] [] .completed h
  /-- A component without nodes. -/
  | blank {h last : Holdings} {stop : Stop} {rest : List Stop} {turns : List Turn}
      {ending : Ending} (empty : stop.trunk.tree = []) (later : Tour h rest turns ending last) :
      Tour h (stop :: rest) turns ending last
  | dynamic {h last : Holdings} {stop : Stop} {rest : List Stop} {turns : List Turn}
      {ending : Ending} {slot : Nat} {instances : List Trunk}
      (node : stop.node? = some (.dynamic slot))
      (entry : h ⟨stop.place, slot⟩ = some instances)
      (later : Tour h (RepeaterAddress.stops ⟨stop.place, slot⟩ instances ++ rest) turns
        ending last) : Tour h (stop :: rest) turns ending last
  | item {h last : Holdings} {stop : Stop} {rest : List Stop} {turn : Turn} {turns : List Turn}
      {ending : Ending} {slot : Nat} {first count : UInt32}
      (node : stop.node? = some (.item slot first count)) (shown : turn.At stop slot)
      (now : turn.scene.root.holdings = h) (effective : turn.fault? = none)
      (later : Tour turn.after.root.holdings (stop.below ++ rest) turns ending last) :
      Tour h (stop :: rest) (turn :: turns) ending last
  /-- An edit of the visitor does not take effect. -/
  | refused {h : Holdings} {stop : Stop} {rest : List Stop} {turn : Turn} {slot : Nat}
      {first count : UInt32} {fault : Fault} (node : stop.node? = some (.item slot first count))
      (shown : turn.At stop slot) (now : turn.scene.root.holdings = h)
      (refusal : turn.fault? = some fault) :
      Tour h (stop :: rest) [turn] (.fault fault) turn.after.root.holdings
  | tooDeep {h : Holdings} {stop : Stop} {rest : List Stop} :
      Tour h (stop :: rest) [] (.fault .tooDeep) h

namespace Tour

variable {h middle last : Holdings} {stops rest : List Stop} {turns turns' : List Turn}
  {ending : Ending}

theorem append (first : Tour h stops turns .completed middle)
    (later : Tour middle rest turns' ending last) :
    Tour h (stops ++ rest) (turns ++ turns') ending last := by
  generalize hend : Ending.completed = ending' at first
  induction first with
  | done => exact later
  | blank empty _ ih => exact .blank empty (ih later hend)
  | dynamic node entry _ ih => exact .dynamic node entry (List.append_assoc .. ▸ ih later hend)
  | item node shown now effective _ ih =>
    exact .item node shown now effective (List.append_assoc .. ▸ ih later hend)
  | refused => cases hend
  | tooDeep => cases hend

/-- What is to come after the end is not come to. -/
theorem append_stopped (first : Tour h stops turns ending last) (hend : ending ≠ .completed)
    (rest : List Stop) : Tour h (stops ++ rest) turns ending last := by
  induction first with
  | done => exact absurd rfl hend
  | blank empty _ ih => exact .blank empty (ih hend)
  | dynamic node entry _ ih => exact .dynamic node entry (List.append_assoc .. ▸ ih hend)
  | item node shown now effective _ ih =>
    exact .item node shown now effective (List.append_assoc .. ▸ ih hend)
  | refused node shown now refusal => exact .refused node shown now refusal
  | tooDeep => exact .tooDeep

end Tour

/-- Not inside any of some repeaters. -/
def Place.Outside (touched : List RepeaterAddress) (place : Place) : Prop :=
  ∀ a ∈ touched, a ∉ owners place

instance (touched : List RepeaterAddress) (place : Place) : Decidable (place.Outside touched) :=
  inferInstanceAs (Decidable (∀ a ∈ touched, a ∉ Place.owners place))

theorem Place.outside_instancePlace (touched : List RepeaterAddress) (a : RepeaterAddress)
    (position : Nat) : (a.instancePlace position).Outside touched ↔
      a.owner.Outside touched ∧ a ∉ touched := by
  simp only [Outside, owners_instancePlace, List.mem_append, List.mem_singleton, not_or]
  constructor
  · intro h
    exact ⟨fun b hb => (h b hb).1, fun ha => (h a ha).2 rfl⟩
  · rintro ⟨howner, ha⟩ b hb
    exact ⟨howner b hb, fun hba => ha (hba ▸ hb)⟩

/-- Those of some things whose places are outside. -/
def Place.select {α : Type} (touched : List RepeaterAddress) (place : α → Place) (xs : List α) :
    List α :=
  xs.filter fun x => (place x).Outside touched

section

variable {α : Type} {touched : List RepeaterAddress} {place : α → Place}

theorem Place.select_append (xs ys : List α) :
    select touched place (xs ++ ys) = select touched place xs ++ select touched place ys :=
  List.filter_append xs ys

theorem Place.select_outside {x : α} (h : (place x).Outside touched) (xs : List α) :
    select touched place (x :: xs) = x :: select touched place xs :=
  List.filter_cons_of_pos (decide_eq_true h)

theorem Place.select_inside {x : α} (h : ¬ (place x).Outside touched) (xs : List α) :
    select touched place (x :: xs) = select touched place xs :=
  List.filter_cons_of_neg fun houtside => h (of_decide_eq_true houtside)

theorem Stop.select_below (stop : Stop) : Place.select touched Stop.place stop.below =
    if stop.place.Outside touched then stop.below else [] := by
  by_cases hplace : stop.place.Outside touched <;>
    simp [Place.select, below, List.filter_map, Function.comp_def, hplace]

theorem Stop.select_stops (a : RepeaterAddress) (instances : List Trunk) :
    Place.select touched Stop.place (a.stops instances) =
      if a.owner.Outside touched ∧ a ∉ touched then a.stops instances else [] := by
  by_cases ha : a.owner.Outside touched ∧ a ∉ touched
  · rw [if_pos ha]
    refine List.filter_eq_self.mpr fun stop hstop => ?_
    obtain ⟨position, hposition, rfl⟩ := List.mem_mapIdx.mp hstop
    exact decide_eq_true ((Place.outside_instancePlace touched a position).mpr ha)
  · rw [if_neg ha]
    refine List.filter_eq_nil_iff.mpr fun stop hstop => ?_
    obtain ⟨position, hposition, rfl⟩ := List.mem_mapIdx.mp hstop
    rw [decide_eq_true_eq]
    exact fun houtside => ha ((Place.outside_instancePlace touched a position).mp houtside)

end

/-- What is shown outside of some repeaters, whatever those hold. -/
inductive Elsewhere (h : Holdings) (touched : List RepeaterAddress) :
    List Stop → List Mark → Prop
  | done : Elsewhere h touched [] []
  | blank {stop : Stop} {rest : List Stop} {marks : List Mark} (empty : stop.trunk.tree = [])
      (later : Elsewhere h touched rest marks) : Elsewhere h touched (stop :: rest) marks
  | replaced {stop : Stop} {rest : List Stop} {marks : List Mark} {slot : Nat}
      (node : stop.node? = some (.dynamic slot)) (mem : ⟨stop.place, slot⟩ ∈ touched)
      (later : Elsewhere h touched rest marks) : Elsewhere h touched (stop :: rest) marks
  | dynamic {stop : Stop} {rest : List Stop} {marks : List Mark} {slot : Nat}
      {instances : List Trunk} (node : stop.node? = some (.dynamic slot))
      (notMem : ⟨stop.place, slot⟩ ∉ touched) (entry : h ⟨stop.place, slot⟩ = some instances)
      (later : Elsewhere h touched
        (RepeaterAddress.stops ⟨stop.place, slot⟩ instances ++ rest) marks) :
      Elsewhere h touched (stop :: rest) marks
  | item {stop : Stop} {rest : List Stop} {marks : List Mark} {slot : Nat} {first count : UInt32}
      (node : stop.node? = some (.item slot first count))
      (later : Elsewhere h touched (stop.below ++ rest) marks) :
      Elsewhere h touched (stop :: rest) (.shown stop.place stop.index slot :: marks)

theorem Stop.node?_of_empty {stop : Stop} (h : stop.trunk.tree = []) : stop.node? = none := by
  rw [node?, h]
  rfl

theorem Elsewhere.unique {h : Holdings} {touched : List RepeaterAddress} {stops : List Stop}
    {marks marks' : List Mark} (one : Elsewhere h touched stops marks)
    (other : Elsewhere h touched stops marks') : marks = marks' := by
  induction one generalizing marks' with
  | done => cases other with | done => rfl
  | blank empty _ ih =>
    have hnone := Stop.node?_of_empty empty
    cases other with
    | blank _ later => exact ih later
    | replaced node => simp [hnone] at node
    | dynamic node => simp [hnone] at node
    | item node => simp [hnone] at node
  | replaced node mem _ ih =>
    cases other with
    | blank empty => simp [Stop.node?_of_empty empty] at node
    | replaced _ _ later => exact ih later
    | dynamic node' notMem =>
      rw [node] at node'
      cases node'
      exact absurd mem notMem
    | item node' => simp [node] at node'
  | dynamic node notMem entry _ ih =>
    cases other with
    | blank empty => simp [Stop.node?_of_empty empty] at node
    | replaced node' mem =>
      rw [node] at node'
      cases node'
      exact absurd mem notMem
    | dynamic node' _ entry' later =>
      rw [node] at node'
      cases node'
      rw [entry] at entry'
      cases entry'
      exact ih later
    | item node' => simp [node] at node'
  | item node _ ih =>
    cases other with
    | blank empty => simp [Stop.node?_of_empty empty] at node
    | replaced node' => simp [node] at node'
    | dynamic node' => simp [node] at node'
    | item node' later =>
      rw [node] at node'
      cases node'
      rw [ih later]

/-- The edits of a turn fill some repeaters at most. -/
def Turn.Touches (touched : List RepeaterAddress) (turn : Turn) : Prop :=
  ∀ edit ∈ turn.edits, ∀ a, edit.target? = some a → a ∈ touched

theorem Scene.holdings_applyAll {touched : List RepeaterAddress} {edits : List Edit}
    (h : ∀ edit ∈ edits, ∀ a, edit.target? = some a → a ∈ touched) (s : Scene)
    {b : RepeaterAddress} (hb : b ∉ touched) (houtside : b.owner.Outside touched) :
    (s.applyAll edits).1.root.holdings b = s.root.holdings b := by
  induction edits generalizing s with
  | nil => rfl
  | cons edit rest ih =>
    have hrest := ih fun edit hedit => h edit (List.mem_cons_of_mem _ hedit)
    rw [applyAll_cons]
    cases happly : s.apply edit with
    | error fault => rfl
    | ok t =>
      refine (hrest t).trans ?_
      rcases apply_cases happly with ⟨a, instances, hrefill, hfilled, -⟩ | ⟨host, -, rfl⟩ |
        ⟨owner, slot, geometry, -, rfl⟩
      · have ha : a ∈ touched := by
          refine h edit List.mem_cons_self a ?_
          rw [Edit.target?_eq s.host, hrefill]
          rfl
        have hne : b ≠ a := fun hba => hb (hba ▸ ha)
        rw [Component.holdings, Component.holdings, hfilled.content_outside hne (houtside a ha)]
      · rfl
      · rw [Component.holdings_eq_stem, Component.holdings_eq_stem, Component.stem_moveItem]

namespace Tour

/-- Outside of the repeaters that edits fill, a tour shows what it would show without them. -/
theorem elsewhere {h g last : Holdings} {touched : List RepeaterAddress} {stops : List Stop}
    {turns : List Turn} {ending : Ending} (tour : Tour g stops turns ending last)
    (completed : ending = .completed)
    (agree : ∀ b, b ∉ touched → b.owner.Outside touched → g b = h b)
    (touches : ∀ turn ∈ turns, turn.Touches touched) :
    Elsewhere h touched (Place.select touched Stop.place stops)
      (Place.select touched Mark.place (turns.map Turn.mark)) := by
  induction tour with
  | done => exact .done
  | @blank _ _ stop _ _ _ empty _ ih =>
    have hrest := ih completed agree touches
    by_cases hplace : stop.place.Outside touched
    · rw [Place.select_outside hplace]
      exact .blank empty hrest
    · rw [Place.select_inside hplace]
      exact hrest
  | @dynamic _ _ stop _ _ _ slot instances node entry _ ih =>
    have hrest := ih completed agree touches
    rw [Place.select_append, Stop.select_stops] at hrest
    by_cases hplace : stop.place.Outside touched
    · rw [Place.select_outside hplace]
      by_cases hmem : (⟨stop.place, slot⟩ : RepeaterAddress) ∈ touched
      · rw [if_neg fun hand => hand.2 hmem] at hrest
        exact .replaced node hmem hrest
      · rw [if_pos ⟨hplace, hmem⟩] at hrest
        exact .dynamic node hmem ((agree _ hmem hplace).symm.trans entry) hrest
    · rw [if_neg fun hand => hplace hand.1] at hrest
      rw [Place.select_inside hplace]
      exact hrest
  | @item _ _ stop _ turn _ _ slot _ _ node shown now _ _ ih =>
    have hturn := touches turn List.mem_cons_self
    have hrest := ih completed
      (fun b hb houtside => by
        rw [Turn.after, Scene.holdings_applyAll hturn _ hb houtside, now]
        exact agree b hb houtside)
      fun turn hmem => touches turn (List.mem_cons_of_mem _ hmem)
    rw [Place.select_append, Stop.select_below] at hrest
    have hmark : turn.mark = .shown stop.place stop.index slot := by
      rw [Turn.mark, shown.atPlace, shown.atIndex, shown.atSlot]
    rw [List.map_cons, hmark]
    by_cases hplace : stop.place.Outside touched
    · rw [if_pos hplace] at hrest
      rw [Place.select_outside hplace,
        Place.select_outside (x := Mark.shown stop.place stop.index slot) hplace]
      exact .item node hrest
    · rw [if_neg hplace] at hrest
      rw [Place.select_inside hplace,
        Place.select_inside (x := Mark.shown stop.place stop.index slot) hplace]
      exact hrest
  | refused => cases completed
  | tooDeep => cases completed

end Tour

end RetainedScene
