import RetainedScene.Proofs.Layout.CellSet
import RetainedScene.Proofs.Layout.Fairness

/-!
# Tracks that are all alike

Where all tracks have one constraint, a single round decides. Either it takes all of them to their
bound, or none of them has reached it, and then the first one is given what rounding left over.
-/

set_option autoImplicit false

namespace RetainedScene

open Scalar

section

variable {α : Type} [Scalar α] {flow : Flow} {t : Track α} {n : Nat} {amount : α}
  {tracks final result : List (Track α)} {starts : List (List (Track α))}

theorem pass_rest_replicate (hroom : t.hasRoom flow = true) (amount weight rest : α) (n : Nat) :
    (Round.pass flow amount weight (List.replicate n t) rest).rest =
      (· - t.moved (t.shared amount weight flow) flow)^[n] rest := by
  induction n generalizing rest with
  | zero => rfl
  | succ n ih =>
    rw [List.replicate_succ, Round.pass, if_pos hroom, Function.iterate_succ_apply]
    exact ih _

/-- What tracks that are alike weigh together. -/
def Track.sharedWeight (flow : Flow) (t : Track α) (n : Nat) : α :=
  total (List.replicate n (t.weight flow))

theorem weight_replicate (hroom : t.hasRoom flow = true) (n : Nat) :
    Round.weight flow (List.replicate n t) = t.sharedWeight flow n := by
  rw [Round.weight, List.filter_replicate_of_pos hroom, List.map_replicate, Track.sharedWeight]

theorem giveRest_replicate (hroom : t.hasRoom flow = true) (rest : α) (n : Nat) :
    giveRest flow rest (List.replicate (n + 1) t) =
      { t with size := t.withRest rest flow } :: List.replicate n t := by
  rw [List.replicate_succ, giveRest, if_pos hroom]

theorem giveRest_of_noRoom (hnone : ∀ t ∈ tracks, t.hasRoom flow = false) (rest : α) :
    giveRest flow rest tracks = tracks := by
  induction tracks with
  | nil => rfl
  | cons t ts ih =>
    obtain ⟨ht, hts⟩ := List.forall_mem_cons.mp hnone
    rw [giveRest, if_neg (by rw [ht]; exact Bool.false_ne_true), ih hts]

theorem next?_of_noRoom (hnone : ∀ t ∈ tracks, t.hasRoom flow = false) (amount : α) :
    Round.next? flow tracks amount = none := by
  have hactive : tracks.filter (Track.hasRoom flow) = [] :=
    List.filter_eq_nil_iff.mpr fun t ht => by simp [hnone t ht]
  simp [Round.next?, hactive]

theorem Shares.result_of_noRoom (h : Shares flow tracks amount starts final result)
    (hnone : ∀ t ∈ tracks, t.hasRoom flow = false) : result = tracks := by
  have hnext := next?_of_noRoom hnone amount
  cases h with
  | done _ => rfl
  | last hsome _ => cases hnext.symm.trans hsome
  | again hsome _ _ => cases hnext.symm.trans hsome

end

variable {flow : Flow} {t : Track Float32} {n : Nat} {amount first other : Float32}
  {tracks final result : List (Track Float32)} {starts : List (List (Track Float32))}

/-- Sizes of `n + 1` tracks that are alike when they have shared an amount: that of the first one,
    and that of all others. -/
inductive SharesAlike (flow : Flow) (t : Track Float32) (n : Nat) (amount : Float32) :
    (first other : Float32) → Prop
  | stays (h : t.hasRoom flow = false ∨ t.sharedWeight flow (n + 1) ≤ 0) :
    SharesAlike flow t n amount t.size t.size
  | level (hroom : t.hasRoom flow = true) :
    SharesAlike flow t n amount (t.shared amount (t.sharedWeight flow (n + 1)) flow)
      (t.shared amount (t.sharedWeight flow (n + 1)) flow)
  | favoured {size rest : Float32} (hroom : t.hasRoom flow = true)
    (hsize : size = t.target amount (t.sharedWeight flow (n + 1)) flow)
    (hbefore : t.reaches size flow = false) (hrest : rest = (· - t.moved size flow)^[n + 1] amount)
    (hpos : 0 < rest) :
    SharesAlike flow t n amount (Track.withRest { t with size } rest flow) size

theorem Shares.alike (h : Shares flow (List.replicate (n + 1) t) amount starts final result) :
    ∃ first other, result.map Track.size = first :: List.replicate n other ∧
      SharesAlike flow t n amount first other := by
  have hreplicate : ∀ u : Track Float32, (List.replicate (n + 1) u).map Track.size =
      u.size :: List.replicate n u.size := fun u => by
    rw [List.map_replicate, List.replicate_succ]
  cases hroom : t.hasRoom flow with
  | false =>
    rw [h.result_of_noRoom fun u hu => List.eq_of_mem_replicate hu ▸ hroom, hreplicate]
    exact ⟨_, _, rfl, .stays (.inl hroom)⟩
  | true =>
    obtain ⟨weight, hweight⟩ : ∃ weight, weight = t.sharedWeight flow (n + 1) := ⟨_, rfl⟩
    have hnext : t.next flow amount weight = { t with size := t.shared amount weight flow } :=
      if_pos hroom
    -- All tracks come to the same size, and all of them reach their bound or none does.
    have hround {round : Round Float32}
        (hsome : Round.next? flow (List.replicate (n + 1) t) amount = some round) :
        round.tracks = List.replicate (n + 1) (t.next flow amount weight) ∧
          round.hit = t.hits flow amount weight ∧
            round.rest = (· - t.moved (t.shared amount weight flow) flow)^[n + 1] amount := by
      obtain ⟨htracks, hhit⟩ := next?_tracks hsome
      rw [weight_replicate hroom, ← hweight] at htracks hhit
      refine ⟨htracks.trans List.map_replicate, hhit.trans (by simp), ?_⟩
      obtain ⟨-, rfl⟩ := Round.next?_eq_some hsome
      rw [weight_replicate hroom, ← hweight]
      exact pass_rest_replicate hroom ..
    have hlevel : ∃ first other,
        (List.replicate (n + 1) (t.next flow amount weight)).map Track.size =
          first :: List.replicate n other ∧ SharesAlike flow t n amount first other := by
      rw [hreplicate, hnext, hweight]
      exact ⟨_, _, rfl, .level hroom⟩
    have hnone (hhits : t.hits flow amount weight = true) :
        ∀ u ∈ List.replicate (n + 1) (t.next flow amount weight), u.hasRoom flow = false :=
      fun u hu => List.eq_of_mem_replicate hu ▸ Track.noRoom_of_hits hhits
    cases h with
    | done hdone =>
      rw [hreplicate]
      refine ⟨_, _, rfl, .stays (.inr ?_)⟩
      rw [Round.next?, List.filter_replicate_of_pos hroom] at hdone
      have hle : total (List.replicate (n + 1) (t.weight flow)) ≤ zero := by
        simpa [List.map_replicate] using hdone
      exact hle
    | @last _ _ round hsome hlast =>
      obtain ⟨htracks, -, hrest⟩ := hround hsome
      rw [Round.settled, htracks]
      split
      case isFalse => exact hlevel
      case isTrue hpos =>
        cases hafter : (t.next flow amount weight).hasRoom flow with
        | false =>
          rw [giveRest_of_noRoom fun u hu => List.eq_of_mem_replicate hu ▸ hafter]
          exact hlevel
        | true =>
          have hbefore : t.reaches (t.target amount weight flow) flow = false := by
            by_contra hreaches
            rw [Bool.not_eq_false] at hreaches
            have hhits : t.hits flow amount weight = true := by
              rw [Track.hits, hroom, hreaches, Bool.and_self]
            rw [Track.noRoom_of_hits hhits] at hafter
            cases hafter
          have hshared : t.shared amount weight flow = t.target amount weight flow :=
            if_neg (by rw [hbefore]; exact Bool.false_ne_true)
          rw [giveRest_replicate hafter, List.map_cons, List.map_replicate, hnext]
          rw [hshared] at hrest ⊢
          subst hweight
          exact ⟨_, _, rfl, .favoured hroom rfl hbefore hrest hpos⟩
    | again hsome hlast later =>
      obtain ⟨htracks, hhit, -⟩ := hround hsome
      rw [Round.isLast, Bool.or_eq_false_iff, Bool.not_eq_false', hhit] at hlast
      rw [htracks] at later
      rw [later.result_of_noRoom (hnone hlast.1)]
      exact hlevel

/-- Sizes of `n + 1` tracks that are alike, which miss the length to fill by some slack. -/
inductive SolvesAlike (t : Track Float32) (n : Nat) (slack : Float32) :
    (first other : Float32) → Prop
  | surplus {first other : Float32} (h : tolerance < slack)
    (shares : SharesAlike .surplus t n slack first other) : SolvesAlike t n slack first other
  | deficit {first other : Float32} (h : slack < -tolerance)
    (shares : SharesAlike .deficit t n (-slack) first other) : SolvesAlike t n slack first other
  | fits (h : ¬ tolerance < slack) (hdeficit : ¬ slack < -tolerance) :
    SolvesAlike t n slack t.size t.size

theorem fillTracks_alike {c : Constraint Float32} {base : Float32} (hbase : c.base? = some base)
    (n : Nat) (available : Float32) : ∃ first other,
      fillTracks (List.replicate (n + 1) c) available = .ok (first :: List.replicate n other) ∧
        SolvesAlike ⟨c, base, base⟩ n (available - total (List.replicate (n + 1) base)) first
          other := by
  have htracks : (List.replicate (n + 1) c).mapM Track.ofConstraint =
      .ok ((List.replicate (n + 1) c).map fun d => ⟨d, base, base⟩) :=
    mapM_ofConstraint fun d hd => List.eq_of_mem_replicate hd ▸ hbase
  rw [List.map_replicate] at htracks
  obtain ⟨flow?, starts, final, solved, hsolves, hsizes⟩ := fillTracks_solves htracks available
  rw [List.map_replicate] at hsolves
  rw [hsizes]
  cases hsolves with
  | surplus h shares =>
    obtain ⟨first, other, heq, halike⟩ := shares.alike
    exact ⟨first, other, congrArg _ heq, .surplus h halike⟩
  | deficit _ h shares =>
    obtain ⟨first, other, heq, halike⟩ := shares.alike
    exact ⟨first, other, congrArg _ heq, .deficit h halike⟩
  | fits h hdeficit =>
    rw [List.map_replicate, List.replicate_succ]
    exact ⟨_, _, rfl, .fits h hdeficit⟩

/-! ### Grids with tracks that are alike -/

namespace Grid

variable {axis : Axis} {declared : Option UInt64} {spans : List CellSpan} {c : Constraint Float32}

theorem foldl_merge_alike (hmerge : c.merge c = c) {constraints : List (Constraint Float32)}
    (h : ∀ d ∈ constraints, d = c) : constraints.foldl Constraint.merge c = c := by
  induction constraints with
  | nil => rfl
  | cons d rest ih =>
    rw [List.foldl_cons, h d List.mem_cons_self, hmerge]
    exact ih fun e he => h e (List.mem_cons_of_mem _ he)

/-- What a track is asked for by cells that all ask for the same. -/
theorem trackConstraint_alike (hmerge : c.merge c = c) (hmax : greater c.max c.min = c.max)
    (h : ∀ s ∈ spans, s.count = 1 → s.constraint = c) {track : Nat}
    (hon : c = .free ∨ ∃ s ∈ spans, s.count = 1 ∧ s.start.toNat = track) :
    trackConstraint spans track = c := by
  rw [trackConstraint]
  cases hsingle : spans.filter fun s => s.count == 1 && s.start.toNat == track with
  | nil =>
    rcases hon with rfl | ⟨s, hs, hcount, hstart⟩
    · simp only [List.map_nil, hmax]
    · have hmem : s ∈ spans.filter fun s => s.count == 1 && s.start.toNat == track :=
        List.mem_filter.mpr ⟨hs, by simp [hcount, hstart]⟩
      rw [hsingle] at hmem
      cases hmem
  | cons s rest =>
    have hall : ∀ u ∈ s :: rest, u.constraint = c := by
      intro u hu
      obtain ⟨hspan, hone⟩ := List.mem_filter.mp (hsingle ▸ hu)
      exact h u hspan (eq_of_beq ((Bool.and_eq_true ..).mp hone).1)
    obtain ⟨hs, hrest⟩ := List.forall_mem_cons.mp hall
    have hfold : (rest.map CellSpan.constraint).foldl Constraint.merge c = c := by
      refine foldl_merge_alike hmerge fun d hd => ?_
      obtain ⟨u, hu, rfl⟩ := List.mem_map.mp hd
      exact hrest u hu
    simp only [List.map_cons, hs, hfold, hmax]

/-- A track that is counted is within reach of a cell. -/
theorem exists_lt_stop {track : Nat} (h : track < trackCount none spans) :
    ∃ s ∈ spans, track < s.stop := by
  by_contra hnone
  have hle : ∀ s ∈ spans, s.stop ≤ track := fun s hs => not_lt.mp fun hlt => hnone ⟨s, hs, hlt⟩
  exact absurd (foldl_stop_le (Nat.zero_le track) hle) (not_le.mpr h)

theorem tracks_alike {g : Grid} {t : Tracks} (h : g.tracks axis = .ok t) {base : Float32}
    (hbase : c.base? = some base) {n : Nat}
    (hcount : trackCount (g.declared axis) (g.spans axis) = n + 1)
    (hc : ∀ track < n + 1, trackConstraint (g.spans axis) track = c) :
    ∃ first other, t = ⟨first :: List.replicate n other,
        offsets g.spacing 0 (first :: List.replicate n other), g.spacing⟩ ∧
      SolvesAlike ⟨c, base, base⟩ n (greater (g.size.along axis - g.spacing * Float32.ofNat n) 0 -
        total (List.replicate (n + 1) base)) first other := by
  obtain ⟨-, sizes, rfl, hsizes⟩ := of_solveAxis h
  have hconstraints : (List.range (n + 1)).map (trackConstraint (g.spans axis)) =
      List.replicate (n + 1) c := by
    rw [List.map_congr_left fun track htrack => hc track (List.mem_range.mp htrack)]
    simp
  obtain ⟨first, other, hfilled, halike⟩ := fillTracks_alike hbase n
    (greater (g.size.along axis - g.spacing * Float32.ofNat n) 0)
  rw [hcount, hconstraints, Nat.add_sub_cancel, hfilled] at hsizes
  obtain rfl := Except.ok.inj hsizes
  exact ⟨first, other, rfl, halike⟩

end Grid

end RetainedScene
