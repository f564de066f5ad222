import RetainedScene.Proofs.Layout.Rounds

/-!
# What rounds keep up

A property of all tracks outlasts sharing out when moving one track keeps it. It may rest on what
is known of the amount that a round begins with, and of what is left while it goes from track to
track.
-/

set_option autoImplicit false

namespace RetainedScene

open Scalar

variable {α : Type} [Scalar α]

namespace Track

/-- The size that a round gives a track which has room. -/
def shared (t : Track α) (amount weight : α) (flow : Flow) : α :=
  if t.reaches (t.target amount weight flow) flow then t.bound flow
  else t.target amount weight flow

end Track

def Round.weight (flow : Flow) (tracks : List (Track α)) : α :=
  total ((tracks.filter (Track.hasRoom flow)).map (Track.weight · flow))

theorem Round.next?_eq_some {flow : Flow} {tracks : List (Track α)} {amount : α} {round : Round α}
    (h : Round.next? flow tracks amount = some round) :
    ¬ Round.weight flow tracks ≤ zero ∧
      round = Round.pass flow amount (Round.weight flow tracks) tracks amount := by
  have hnext : Round.next? flow tracks amount =
      if (tracks.filter (Track.hasRoom flow)).isEmpty || Round.weight flow tracks ≤ zero then none
      else some (Round.pass flow amount (Round.weight flow tracks) tracks amount) := rfl
  rw [hnext] at h
  split at h
  · cases h
  case isFalse hweight =>
    refine ⟨fun hle => hweight ?_, (Option.some.inj h).symm⟩
    rw [decide_eq_true hle, Bool.or_true]

/-- `P` holds of every track, `A` of the amount at the start of a round, and `R` of the rest at
    every track. -/
structure Upkeep (flow : Flow) (P : Track α → Prop) (A R : α → Prop) : Prop where
  start : ∀ amount, A amount → R amount
  step : ∀ tracks amount, (∀ t ∈ tracks, P t) → A amount → ¬ Round.weight flow tracks ≤ zero →
    ∀ t ∈ tracks, t.hasRoom flow = true → ∀ rest, R rest →
      P { t with size := t.shared amount (Round.weight flow tracks) flow } ∧
        R (rest - t.moved (t.shared amount (Round.weight flow tracks) flow) flow)
  again : ∀ rest, R rest → ¬ rest ≤ tolerance → A rest
  last : ∀ t rest, P t → t.hasRoom flow = true → R rest → zero < rest →
    P { t with size := t.withRest rest flow }

variable {flow : Flow} {P : Track α → Prop} {A R : α → Prop}

theorem pass_keeps {amount weight : α} {tracks : List (Track α)} {rest : α}
    (hP : ∀ t ∈ tracks, P t) (hR : R rest)
    (step : ∀ t ∈ tracks, t.hasRoom flow = true → ∀ rest, R rest →
      P { t with size := t.shared amount weight flow } ∧
        R (rest - t.moved (t.shared amount weight flow) flow)) :
    (∀ t ∈ (Round.pass flow amount weight tracks rest).tracks, P t) ∧
      R (Round.pass flow amount weight tracks rest).rest := by
  induction tracks generalizing rest with
  | nil => exact ⟨hP, hR⟩
  | cons t ts ih =>
    have hP' := fun u hu => hP u (List.mem_cons_of_mem t hu)
    have step' := fun u hu => step u (List.mem_cons_of_mem t hu)
    rw [Round.pass]
    split
    case isTrue hroom =>
      obtain ⟨ht, hmoved⟩ := step t List.mem_cons_self hroom rest hR
      obtain ⟨htracks, hrest⟩ := ih hP' hmoved step'
      refine ⟨fun u hu => ?_, hrest⟩
      rcases List.mem_cons.mp hu with rfl | hu
      · exact ht
      · exact htracks u hu
    case isFalse =>
      obtain ⟨htracks, hrest⟩ := ih hP' hR step'
      refine ⟨fun u hu => ?_, hrest⟩
      rcases List.mem_cons.mp hu with rfl | hu
      · exact hP u List.mem_cons_self
      · exact htracks u hu

/-- What is left over changes the size of one track with room at most. -/
theorem mem_giveRest {rest : α} {tracks : List (Track α)} {t : Track α}
    (h : t ∈ giveRest flow rest tracks) : t ∈ tracks ∨
      ∃ u ∈ tracks, u.hasRoom flow = true ∧ t = { u with size := u.withRest rest flow } := by
  induction tracks with
  | nil => exact .inl h
  | cons u us ih =>
    rw [giveRest] at h
    split at h
    case isTrue hroom =>
      rcases List.mem_cons.mp h with rfl | h
      · exact .inr ⟨u, List.mem_cons_self, hroom, rfl⟩
      · exact .inl (List.mem_cons_of_mem u h)
    case isFalse =>
      rcases List.mem_cons.mp h with rfl | h
      · exact .inl List.mem_cons_self
      · rcases ih h with ht | ⟨v, hv, hchanged⟩
        · exact .inl (List.mem_cons_of_mem u ht)
        · exact .inr ⟨v, List.mem_cons_of_mem u hv, hchanged⟩

theorem mem_settled {round : Round α} {t : Track α} (h : t ∈ round.settled flow) :
    t ∈ round.tracks ∨ zero < round.rest ∧ ∃ u ∈ round.tracks, u.hasRoom flow = true ∧
      t = { u with size := u.withRest round.rest flow } := by
  rw [Round.settled] at h
  split at h
  case isTrue hpos => exact (mem_giveRest h).imp_right fun hchanged => ⟨hpos, hchanged⟩
  case isFalse => exact .inl h

namespace Upkeep

variable (h : Upkeep flow P A R) {tracks : List (Track α)}

include h

theorem next {amount : α} {round : Round α} (hP : ∀ t ∈ tracks, P t) (hA : A amount)
    (hround : Round.next? flow tracks amount = some round) :
    (∀ t ∈ round.tracks, P t) ∧ R round.rest := by
  obtain ⟨hweight, rfl⟩ := Round.next?_eq_some hround
  exact pass_keeps hP (h.start amount hA) (h.step tracks amount hP hA hweight)

theorem settled {round : Round α} (hP : ∀ t ∈ round.tracks, P t) (hR : R round.rest) :
    ∀ t ∈ round.settled flow, P t := by
  intro t ht
  rcases mem_settled ht with ht | ⟨hpos, u, hu, hroom, rfl⟩
  · exact hP t ht
  · exact h.last u round.rest (hP u hu) hroom hR hpos

theorem shareOut (rounds : Nat) {amount : α} (hP : ∀ t ∈ tracks, P t) (hA : A amount) :
    ∀ t ∈ shareOut flow rounds tracks amount, P t := by
  induction rounds generalizing tracks amount with
  | zero => exact hP
  | succ rounds ih =>
    rw [RetainedScene.shareOut]
    cases hnext : Round.next? flow tracks amount with
    | none => exact hP
    | some round =>
      obtain ⟨htracks, hrest⟩ := h.next hP hA hnext
      dsimp only
      split
      case isTrue => exact h.settled htracks hrest
      case isFalse hlast =>
        refine ih htracks (h.again _ hrest fun hle => hlast ?_)
        rw [Round.isLast, decide_eq_true hle, Bool.or_true]

end Upkeep

theorem fillTracks_keeps {S : α → Prop} {constraints : List (Constraint α)}
    {base : Constraint α → α} (hbase : ∀ c ∈ constraints, c.base? = some (base c)) (available : α)
    (hstart : ∀ c ∈ constraints, S (base c))
    (hshared : ∀ tracks, tracks = (constraints.map fun c => (⟨c, base c, base c⟩ : Track α)) →
      ∀ slack, slack = available - total (tracks.map Track.size) →
      (tolerance < slack →
        ∀ t ∈ shareOut .surplus (tracks.length + 1) tracks slack, S t.size) ∧
      (slack < -tolerance →
        ∀ t ∈ shareOut .deficit (tracks.length + 1) tracks (-slack), S t.size)) :
    ∃ sizes, fillTracks constraints available = .ok sizes ∧ ∀ size ∈ sizes, S size := by
  obtain ⟨hsurplus, hdeficit⟩ := hshared _ rfl _ rfl
  rw [fillTracks, mapM_ofConstraint hbase]
  refine ⟨_, rfl, fun size hsize => ?_⟩
  obtain ⟨t, ht, rfl⟩ := List.mem_map.mp hsize
  split at ht
  case isTrue hslack => exact hsurplus hslack t ht
  case isFalse =>
    split at ht
    case isTrue hslack => exact hdeficit hslack t ht
    case isFalse =>
      obtain ⟨c, hc, rfl⟩ := List.mem_map.mp ht
      exact hstart c hc

end RetainedScene
