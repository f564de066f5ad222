import RetainedScene.Layout.Tracks
import RetainedScene.Proofs.Results

/-!
# What rounds leave alone

Sharing out changes sizes only. Every track keeps its constraint and its base, so that a solved row
has as many sizes as constraints.
-/

set_option autoImplicit false

namespace RetainedScene

open Scalar

variable {α : Type} [Scalar α]

namespace Track

def origin (t : Track α) : Constraint α × α :=
  (t.constraint, t.base)

theorem ofConstraint_eq {c : Constraint α} {base : α} (h : c.base? = some base) :
    ofConstraint c = .ok ⟨c, base, base⟩ := by
  rw [ofConstraint, h]

end Track

theorem origins_pass (flow : Flow) (amount weight : α) (tracks : List (Track α)) (rest : α) :
    (Round.pass flow amount weight tracks rest).tracks.map Track.origin =
      tracks.map Track.origin := by
  induction tracks generalizing rest with
  | nil => rfl
  | cons t ts ih =>
    rw [Round.pass]
    split
    · exact congrArg (t.origin :: ·) (ih _)
    · exact congrArg (t.origin :: ·) (ih _)

theorem origins_next {flow : Flow} {tracks : List (Track α)} {amount : α} {round : Round α}
    (h : Round.next? flow tracks amount = some round) :
    round.tracks.map Track.origin = tracks.map Track.origin := by
  simp only [Round.next?] at h
  split at h
  · cases h
  · obtain rfl := Option.some.inj h
    exact origins_pass flow amount _ tracks amount

theorem origins_giveRest (flow : Flow) (rest : α) (tracks : List (Track α)) :
    (giveRest flow rest tracks).map Track.origin = tracks.map Track.origin := by
  induction tracks with
  | nil => rfl
  | cons t ts ih =>
    rw [giveRest]
    split
    · rfl
    · exact congrArg (t.origin :: ·) ih

theorem origins_settled (flow : Flow) (round : Round α) :
    (round.settled flow).map Track.origin = round.tracks.map Track.origin := by
  rw [Round.settled]
  split
  · exact origins_giveRest flow round.rest round.tracks
  · rfl

theorem origins_shareOut (flow : Flow) (rounds : Nat) (tracks : List (Track α)) (amount : α) :
    (shareOut flow rounds tracks amount).map Track.origin = tracks.map Track.origin := by
  induction rounds generalizing tracks amount with
  | zero => rfl
  | succ rounds ih =>
    rw [shareOut]
    cases hnext : Round.next? flow tracks amount with
    | none => rfl
    | some round =>
      have hround := origins_next hnext
      dsimp only
      split
      · exact (origins_settled flow round).trans hround
      · exact (ih round.tracks round.rest).trans hround

theorem mapM_ofConstraint {constraints : List (Constraint α)} {base : Constraint α → α}
    (h : ∀ c ∈ constraints, c.base? = some (base c)) :
    constraints.mapM Track.ofConstraint = .ok (constraints.map fun c => ⟨c, base c, base c⟩) :=
  mapM_ok fun c hc => Track.ofConstraint_eq (h c hc)

theorem fillTracks_ok {constraints : List (Constraint α)}
    (h : ∀ c ∈ constraints, ∃ base, c.base? = some base) (available : α) :
    ∃ sizes, fillTracks constraints available = .ok sizes ∧
      sizes.length = constraints.length := by
  have hbase : ∀ c ∈ constraints, c.base? = some (c.base?.getD zero) := by
    intro c hc
    obtain ⟨base, hbase⟩ := h c hc
    rw [hbase]
    rfl
  have length_eq : ∀ {solved tracks : List (Track α)},
      solved.map Track.origin = tracks.map Track.origin → solved.length = tracks.length := by
    intro solved tracks horigins
    simpa using congrArg List.length horigins
  rw [fillTracks, mapM_ofConstraint hbase]
  refine ⟨_, rfl, ?_⟩
  rw [List.length_map]
  split
  · exact (length_eq (origins_shareOut ..)).trans (List.length_map _)
  · split
    · exact (length_eq (origins_shareOut ..)).trans (List.length_map _)
    · exact List.length_map _

end RetainedScene
