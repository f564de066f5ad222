import Mathlib.Data.List.Chain
import RetainedScene.Proofs.Layout.Upkeep
import RetainedScene.Proofs.Number.Order

/-!
# Rounds come to an end

Sharing out goes on round after round, without a counter. A round is followed by another one only
if it has put a track on its bound, and a track without room is never touched again. So there is at
most one round more than there are tracks, whatever the numbers are.
-/

set_option autoImplicit false

namespace RetainedScene

open Scalar

section

variable {α : Type} [Scalar α] {flow : Flow}

namespace Track

/-- What a round makes of a track. -/
def next (flow : Flow) (amount weight : α) (t : Track α) : Track α :=
  if t.hasRoom flow then { t with size := t.shared amount weight flow } else t

def hits (flow : Flow) (amount weight : α) (t : Track α) : Bool :=
  t.hasRoom flow && t.reaches (t.target amount weight flow) flow

variable {t : Track α}

theorem next_of_noRoom (h : t.hasRoom flow = false) (amount weight : α) :
    t.next flow amount weight = t := by
  rw [next, h, if_neg Bool.false_ne_true]

theorem next_of_hits {amount weight : α} (h : t.hits flow amount weight = true) :
    t.next flow amount weight = { t with size := t.bound flow } := by
  obtain ⟨hroom, hreaches⟩ := (Bool.and_eq_true ..).mp h
  rw [next, if_pos hroom, shared, if_pos hreaches]

end Track

/-- A round treats every track alike, and knows nothing of the others but their weight. -/
theorem pass_tracks (flow : Flow) (amount weight : α) (tracks : List (Track α)) (rest : α) :
    (Round.pass flow amount weight tracks rest).tracks =
      tracks.map (Track.next flow amount weight) := by
  induction tracks generalizing rest with
  | nil => rfl
  | cons t ts ih =>
    rw [Round.pass, List.map_cons, Track.next]
    split
    · exact congrArg (_ :: ·) (ih _)
    · exact congrArg (_ :: ·) (ih _)

theorem pass_hit (flow : Flow) (amount weight : α) (tracks : List (Track α)) (rest : α) :
    (Round.pass flow amount weight tracks rest).hit =
      tracks.any (Track.hits flow amount weight) := by
  induction tracks generalizing rest with
  | nil => rfl
  | cons t ts ih =>
    rw [Round.pass, List.any_cons, Track.hits]
    split
    case isTrue hroom =>
      rw [hroom, Bool.true_and]
      exact congrArg (_ || ·) (ih _)
    case isFalse hroom =>
      rw [Bool.eq_false_iff.mpr hroom, Bool.false_and, Bool.false_or]
      exact ih _

theorem next?_tracks {tracks : List (Track α)} {amount : α} {round : Round α}
    (h : Round.next? flow tracks amount = some round) :
    round.tracks = tracks.map (Track.next flow amount (Round.weight flow tracks)) ∧
      round.hit = tracks.any (Track.hits flow amount (Round.weight flow tracks)) := by
  obtain ⟨-, rfl⟩ := Round.next?_eq_some h
  exact ⟨pass_tracks .., pass_hit ..⟩

theorem giveRest_getElem? (flow : Flow) (rest : α) (tracks : List (Track α)) (k : Nat) :
    (giveRest flow rest tracks)[k]? =
      if tracks.findIdx? (Track.hasRoom flow) = some k then
        tracks[k]?.map fun t => { t with size := t.withRest rest flow }
      else tracks[k]? := by
  induction tracks generalizing k with
  | nil => simp [giveRest]
  | cons t ts ih =>
    rw [giveRest, List.findIdx?_cons]
    split
    case isTrue hroom =>
      cases k with
      | zero => simp
      | succ k => simp
    case isFalse hroom =>
      cases k with
      | zero => simp
      | succ k => simp [ih]

/-- One round after another, for as long as it takes. `starts` has the tracks that each round
    begins with, `final` those that the rounds end with, and `result` what they are when the first
    of them that still has room was given the rest. -/
inductive Shares (flow : Flow) : (tracks : List (Track α)) → (amount : α) →
    (starts : List (List (Track α))) → (final result : List (Track α)) → Prop
  | done {tracks : List (Track α)} {amount : α} (h : Round.next? flow tracks amount = none) :
    Shares flow tracks amount [tracks] tracks tracks
  | last {tracks : List (Track α)} {amount : α} {round : Round α}
    (h : Round.next? flow tracks amount = some round) (hlast : round.isLast = true) :
    Shares flow tracks amount [tracks] round.tracks (round.settled flow)
  | again {tracks : List (Track α)} {amount : α} {round : Round α}
    {starts : List (List (Track α))} {final result : List (Track α)}
    (h : Round.next? flow tracks amount = some round) (hlast : round.isLast = false)
    (later : Shares flow round.tracks round.rest starts final result) :
    Shares flow tracks amount (tracks :: starts) final result

/-- How tracks at their base sizes are solved, and by which flow if they do not fit as they are. -/
inductive Solves (tracks : List (Track α)) (slack : α) : (flow? : Option Flow) →
    (starts : List (List (Track α))) → (final solved : List (Track α)) → Prop
  | surplus {starts : List (List (Track α))} {final solved : List (Track α)}
    (h : tolerance < slack) (shares : Shares .surplus tracks slack starts final solved) :
    Solves tracks slack (some .surplus) starts final solved
  | deficit {starts : List (List (Track α))} {final solved : List (Track α)}
    (h : ¬ tolerance < slack) (hdeficit : slack < -tolerance)
    (shares : Shares .deficit tracks (-slack) starts final solved) :
    Solves tracks slack (some .deficit) starts final solved
  | fits (h : ¬ tolerance < slack) (hdeficit : ¬ slack < -tolerance) :
    Solves tracks slack none [] tracks tracks

/-- Some track with room got exactly to its bound. -/
def Presses (flow : Flow) (before after : List (Track α)) : Prop :=
  ∃ (k : Nat) (t : Track α), before[k]? = some t ∧ t.hasRoom flow = true ∧
    after[k]? = some { t with size := t.bound flow }

/-- A track without room stays what it is, and so has none afterwards. -/
def KeepsOut (flow : Flow) (before after : List (Track α)) : Prop :=
  ∀ (k : Nat) (t : Track α), before[k]? = some t → t.hasRoom flow = false → after[k]? = some t

variable {tracks final result : List (Track α)} {amount : α} {starts : List (List (Track α))}

theorem KeepsOut.refl (flow : Flow) (tracks : List (Track α)) : KeepsOut flow tracks tracks :=
  fun _ _ ht _ => ht

theorem KeepsOut.trans {before between after : List (Track α)} (h : KeepsOut flow before between)
    (h' : KeepsOut flow between after) : KeepsOut flow before after :=
  fun k t ht hroom => h' k t (h k t ht hroom) hroom

theorem keepsOut_next? {round : Round α} (h : Round.next? flow tracks amount = some round) :
    KeepsOut flow tracks round.tracks := by
  intro k t ht hroom
  rw [(next?_tracks h).1, List.getElem?_map, ht, Option.map_some, Track.next_of_noRoom hroom]

theorem keepsOut_settled (round : Round α) : KeepsOut flow round.tracks (round.settled flow) := by
  intro k t ht hroom
  rw [Round.settled]
  split
  case isFalse => exact ht
  case isTrue =>
    rw [giveRest_getElem?, if_neg, ht]
    intro hfirst
    obtain ⟨hk, hk', -⟩ := List.findIdx?_eq_some_iff_getElem.mp hfirst
    rw [(List.getElem?_eq_some_iff.mp ht).2, hroom] at hk'
    cases hk'

/-- A round that has another one after it has put a track on its bound. -/
theorem presses_next? {round : Round α} (h : Round.next? flow tracks amount = some round)
    (hlast : round.isLast = false) : Presses flow tracks round.tracks := by
  obtain ⟨htracks, hhit⟩ := next?_tracks h
  have hany : round.hit = true := by
    rw [Round.isLast, Bool.or_eq_false_iff, Bool.not_eq_false'] at hlast
    exact hlast.1
  rw [hhit] at hany
  obtain ⟨t, ht, hits⟩ := List.any_eq_true.mp hany
  obtain ⟨k, hk⟩ := List.mem_iff_getElem?.mp ht
  refine ⟨k, t, hk, ((Bool.and_eq_true ..).mp hits).1, ?_⟩
  rw [htracks, List.getElem?_map, hk, Option.map_some, Track.next_of_hits hits]

namespace Shares

theorem origins (h : Shares flow tracks amount starts final result) :
    result.map Track.origin = tracks.map Track.origin := by
  induction h with
  | done _ => rfl
  | @last _ _ round hnext _ => exact (origins_settled flow round).trans (origins_next hnext)
  | again hnext _ _ ih => exact ih.trans (origins_next hnext)

theorem starts_eq (h : Shares flow tracks amount starts final result) :
    ∃ later, starts = tracks :: later := by
  cases h with
  | done _ => exact ⟨[], rfl⟩
  | last _ _ => exact ⟨[], rfl⟩
  | again _ _ _ => exact ⟨_, rfl⟩

theorem presses (h : Shares flow tracks amount starts final result) :
    starts.IsChain (Presses flow) := by
  induction h with
  | done _ => exact List.isChain_singleton _
  | last _ _ => exact List.isChain_singleton _
  | again hnext hlast later ih =>
    obtain ⟨rest, rfl⟩ := later.starts_eq
    exact List.isChain_cons_cons.mpr ⟨presses_next? hnext hlast, ih⟩

theorem keepsOut (h : Shares flow tracks amount starts final result) :
    ∀ after ∈ starts ++ [final, result], KeepsOut flow tracks after := by
  induction h with
  | done _ => simpa using KeepsOut.refl flow _
  | @last _ _ round hnext _ =>
    have hround := keepsOut_next? hnext
    simpa using ⟨KeepsOut.refl flow _, hround, hround.trans (keepsOut_settled round)⟩
  | again hnext _ _ ih =>
    intro after hafter
    rcases List.mem_cons.mp hafter with rfl | hafter
    · exact KeepsOut.refl flow _
    · exact (keepsOut_next? hnext).trans (ih after hafter)

theorem pairwise_keepsOut (h : Shares flow tracks amount starts final result) :
    (starts ++ [final, result]).Pairwise (KeepsOut flow) := by
  induction h with
  | done _ => simpa using KeepsOut.refl flow _
  | @last _ _ round hnext _ =>
    have hround := keepsOut_next? hnext
    have hsettled : KeepsOut flow round.tracks (round.settled flow) := keepsOut_settled round
    simpa using ⟨⟨hround, hround.trans hsettled⟩, hsettled⟩
  | again hnext hlast later ih =>
    refine List.pairwise_cons.mpr ⟨fun after hafter => ?_, ih⟩
    exact (keepsOut_next? hnext).trans (later.keepsOut after hafter)

/-- Every track has what it had at first but for its size, and where it had no room that too. -/
theorem result_getElem? (h : Shares flow tracks amount starts final result) {k : Nat}
    {t : Track α} (ht : tracks[k]? = some t) : ∃ u, result[k]? = some u ∧
      u.constraint = t.constraint ∧ u.base = t.base ∧ (t.hasRoom flow = false → u = t) := by
  have horigin : (result[k]?).map Track.origin = some t.origin := by
    rw [← List.getElem?_map, h.origins, List.getElem?_map, ht, Option.map_some]
  obtain ⟨u, hu, horigin⟩ := Option.map_eq_some_iff.mp horigin
  obtain ⟨hconstraint, hbase⟩ := Prod.mk.inj horigin
  refine ⟨u, hu, hconstraint, hbase, fun hroom => ?_⟩
  have hkept := h.keepsOut result (List.mem_append_right _ (by simp)) k t ht hroom
  exact Option.some.inj (hu.symm.trans hkept)

end Shares

end

/-! ### The number of rounds -/

variable {flow : Flow} {tracks final result : List (Track Float32)} {amount weight : Float32}
  {starts : List (List (Track Float32))}

def roomy (flow : Flow) (tracks : List (Track Float32)) : Nat :=
  (tracks.filter (Track.hasRoom flow)).length

theorem Binary32.lt_irrefl (x : Float32) : ¬ x < x :=
  fun h => (lt_iff_rank.mp h).2.2.false

/-- On its bound a track has no room, also where it got there from a NaN or an infinite size. -/
theorem Track.noRoom_of_hits {t : Track Float32} (h : t.hits flow amount weight = true) :
    (t.next flow amount weight).hasRoom flow = false := by
  rw [Track.next_of_hits h]
  cases flow with
  | surplus => simp [Track.hasRoom, Track.beforeBound, Track.bound, Binary32.lt_irrefl]
  | deficit => simp [Track.hasRoom, Track.beforeBound, Track.bound, Binary32.lt_irrefl]

theorem Track.hasRoom_of_next {t : Track Float32}
    (h : (t.next flow amount weight).hasRoom flow = true) : t.hasRoom flow = true := by
  by_contra hroom
  rw [Bool.not_eq_true] at hroom
  rw [Track.next_of_noRoom hroom, hroom] at h
  cases h

/-- Only tracks that had room before can have room after a round, and one of them lost it. -/
theorem roomy_lt {round : Round Float32} (h : Round.next? flow tracks amount = some round)
    (hlast : round.isLast = false) : roomy flow round.tracks < roomy flow tracks := by
  obtain ⟨htracks, hhit⟩ := next?_tracks h
  obtain ⟨weight, hweight⟩ : ∃ weight, weight = Round.weight flow tracks := ⟨_, rfl⟩
  rw [← hweight] at htracks hhit
  -- No track gets room by a round, so those with room afterwards are among those with room before.
  have hfilter : tracks.filter (Track.hasRoom flow ∘ Track.next flow amount weight) =
      (tracks.filter (Track.hasRoom flow)).filter
        (Track.hasRoom flow ∘ Track.next flow amount weight) := by
    rw [List.filter_filter]
    refine List.filter_congr fun t _ => ?_
    cases hnext : (t.next flow amount weight).hasRoom flow with
    | true => simp [hnext, Track.hasRoom_of_next hnext]
    | false => simp [hnext]
  rw [Round.isLast, Bool.or_eq_false_iff, Bool.not_eq_false', hhit] at hlast
  obtain ⟨t, ht, hits⟩ := List.any_eq_true.mp hlast.1
  have hroom := ((Bool.and_eq_true ..).mp hits).1
  rw [roomy, roomy, htracks, List.filter_map, List.length_map, hfilter]
  exact List.length_filter_lt_length_iff_exists.mpr
    ⟨t, List.mem_filter.mpr ⟨ht, hroom⟩, by simp [Track.noRoom_of_hits hits]⟩

theorem Shares.length_starts (h : Shares flow tracks amount starts final result) :
    starts.length ≤ roomy flow tracks + 1 := by
  induction h with
  | done _ => exact Nat.le_add_left ..
  | last _ _ => exact Nat.le_add_left ..
  | again hnext hlast _ ih =>
    have := roomy_lt hnext hlast
    rw [List.length_cons]
    omega

/-- With more rounds than tracks that have room, sharing out gets to its end. -/
theorem shareOut_shares (amount : Float32) (rounds : Nat) (hrounds : roomy flow tracks < rounds) :
    ∃ starts final, Shares flow tracks amount starts final (shareOut flow rounds tracks amount) := by
  induction rounds generalizing tracks amount with
  | zero => exact absurd hrounds (Nat.not_lt_zero _)
  | succ rounds ih =>
    rw [shareOut]
    cases hnext : Round.next? flow tracks amount with
    | none => exact ⟨_, _, .done hnext⟩
    | some round =>
      dsimp only
      cases hlast : round.isLast with
      | true =>
        rw [if_pos rfl]
        exact ⟨_, _, .last hnext hlast⟩
      | false =>
        rw [if_neg Bool.false_ne_true]
        have hfewer := roomy_lt hnext hlast
        obtain ⟨starts, final, later⟩ : ∃ starts final, Shares flow round.tracks round.rest starts
            final (shareOut flow rounds round.tracks round.rest) := ih _ (by omega)
        exact ⟨_, _, .again hnext hlast later⟩

theorem fillTracks_solves {constraints : List (Constraint Float32)}
    (htracks : constraints.mapM Track.ofConstraint = .ok tracks) (available : Float32) :
    ∃ flow? starts final solved,
      Solves tracks (available - total (tracks.map Track.size)) flow? starts final solved ∧
        fillTracks constraints available = .ok (solved.map Track.size) := by
  have hroomy : ∀ flow, roomy flow tracks < tracks.length + 1 :=
    fun flow => Nat.lt_succ_of_le (List.length_filter_le ..)
  rw [fillTracks, htracks]
  simp only [bind, Except.bind, pure, Except.pure]
  generalize available - total (tracks.map Track.size) = slack
  split
  case isTrue hsurplus =>
    obtain ⟨starts, final, shares⟩ := shareOut_shares slack _ (hroomy .surplus)
    exact ⟨_, _, _, _, .surplus hsurplus shares, rfl⟩
  case isFalse hsurplus =>
    split
    case isTrue hdeficit =>
      obtain ⟨starts, final, shares⟩ := shareOut_shares (-slack) _ (hroomy .deficit)
      exact ⟨_, _, _, _, .deficit hsurplus hdeficit shares, rfl⟩
    case isFalse hdeficit => exact ⟨_, _, _, _, .fits hsurplus hdeficit, rfl⟩

/-- What is known of the rounds: they are few, each but the last puts a track on its bound, and
    what has lost its room stays out of all later ones. -/
structure EndsSoon (flow : Flow) (tracks : List (Track Float32))
    (starts : List (List (Track Float32))) (final result : List (Track Float32)) : Prop where
  rounds : starts.length ≤ tracks.length + 1
  presses : starts.IsChain (Presses flow)
  keepsOut : (starts ++ [final, result]).Pairwise (KeepsOut flow)

/-- Whatever the numbers are, rounds end by themselves, and the solver goes through all of them. -/
theorem fillTracks_ends (constraints : List (Constraint Float32)) (available : Float32)
    (hbase : ∀ c ∈ constraints, ∃ base, c.base? = some base) :
    ∃ tracks, constraints.mapM Track.ofConstraint = .ok tracks ∧
      tracks.length = constraints.length ∧
      (∀ flow amount starts final result, Shares flow tracks amount starts final result →
        EndsSoon flow tracks starts final result) ∧
      ∃ flow? starts final solved,
        Solves tracks (available - total (tracks.map Track.size)) flow? starts final solved ∧
          fillTracks constraints available = .ok (solved.map Track.size) := by
  obtain ⟨tracks, htracks⟩ : ∃ tracks, constraints.mapM Track.ofConstraint = .ok tracks :=
    mapM_ok_of_exists fun c hc => by
      obtain ⟨base, hc⟩ := hbase c hc
      exact ⟨_, Track.ofConstraint_eq hc⟩
  refine ⟨tracks, htracks, (of_mapM_ok htracks).1, ?_, fillTracks_solves htracks available⟩
  intro flow amount starts final result shares
  refine ⟨shares.length_starts.trans ?_, shares.presses, shares.pairwise_keepsOut⟩
  exact Nat.succ_le_succ (List.length_filter_le ..)

/-- One that is soon at its bound, two that stretch without end, one of them from a negative size,
    and two that do not, with a stretch that is negative or NaN. -/
def oddRow : List (Constraint Float32) :=
  [⟨0, 10, 0, 1⟩, ⟨-5, Binary32.infinity, -3, 1⟩, .free, ⟨0, Binary32.infinity, 0, -2⟩,
    ⟨0, Binary32.infinity, 3, 0 / 0⟩]

theorem oddRow_ends : (∀ c ∈ oddRow, ∃ base, c.base? = some base) ∧
    ∃ tracks starts final solved, oddRow.mapM Track.ofConstraint = .ok tracks ∧
      Shares .surplus tracks 100 starts final solved ∧
      EndsSoon .surplus tracks starts final solved ∧
      solved.map Track.size = [10, 42, 45, 0, 3] := by
  have hbase : ∀ c ∈ oddRow, ∃ base, c.base? = some base := by
    have hsome : ∀ c ∈ oddRow, c.base?.isSome = true := by decide +kernel
    exact fun c hc => Option.isSome_iff_exists.mp (hsome c hc)
  obtain ⟨tracks, htracks, -, hends, flow?, starts, final, solved, hsolves, hsizes⟩ :=
    fillTracks_ends oddRow 100 hbase
  have hslack : (oddRow.mapM Track.ofConstraint).toOption.map
      (fun tracks => 100 - total (tracks.map Track.size)) = some 100 := by decide +kernel
  rw [htracks] at hslack
  have hslack : 100 - total (tracks.map Track.size) = 100 := Option.some.inj hslack
  rw [hslack] at hsolves
  have hsolved : fillTracks oddRow 100 = .ok [10, 42, 45, 0, 3] := by decide +kernel
  refine ⟨hbase, tracks, starts, final, solved, htracks, ?_⟩
  cases hsolves with
  | surplus _ shares =>
    exact ⟨shares, hends _ _ _ _ _ shares, Except.ok.inj (hsizes.symm.trans hsolved)⟩
  | deficit hfits => exact absurd (by decide +kernel) hfits
  | fits hfits => exact absurd (by decide +kernel) hfits

end RetainedScene
