import Mathlib.Data.List.Forall2
import RetainedScene.Proofs.Layout.Ending
import RetainedScene.Proofs.Layout.Sizes

/-!
# Sizes stay in range

A track moves from its base toward its bound and not past it. Rounding may let it stop early, and a
share may be infinite before it is divided, but the order of base, size and bound is kept, as long
as what tracks weigh together is finite.
-/

set_option autoImplicit false

namespace RetainedScene

open Scalar Binary32

namespace Track

variable {flow : Flow} {t : Track Float32}

/-- Between its base and its bound. -/
structure Ranged (flow : Flow) (t : Track Float32) : Prop where
  constraint : t.constraint.Solvable
  base_finite : t.base.isFinite = true
  base_nonneg : 0 ≤ t.base
  started : flow.Onward t.base t.size
  bounded : flow.Onward t.size (t.bound flow)

namespace Ranged

theorem weight_finite (h : t.Ranged flow) : (t.weight flow).isFinite = true := by
  cases flow with
  | surplus => exact h.constraint.stretch_finite
  | deficit => exact h.base_finite

theorem weight_nonneg (h : t.Ranged flow) : AtLeast (t.weight flow) 0 := by
  cases flow with
  | surplus => exact atLeast_zero_iff.mpr h.constraint.stretch_nonneg
  | deficit => exact atLeast_zero_iff.mpr h.base_nonneg

/-- A size may be infinite, but then it has reached its bound. -/
theorem size_finite (h : t.Ranged flow) (hroom : t.hasRoom flow = true) :
    t.size.isFinite = true := by
  cases flow with
  | surplus =>
    have hlt := (hasRoom_surplus hroom).2
    obtain ⟨hsize, hmax, -⟩ := lt_iff_rank.mp hlt
    rcases (atLeast_value h.base_finite).of_le h.started with hinfinite | ⟨hfinite, -⟩
    · exact absurd hlt (not_lt_of_le (hinfinite.ge hmax))
    · exact hfinite
  | deficit =>
    have hleast := (atLeast_value h.constraint.min_finite).of_le h.bounded
    exact ((atMost_value h.base_finite).of_le h.started).isFinite hleast

theorem moveTo (h : t.Ranged flow) {size : Float32} (hstart : flow.Onward t.size size)
    (hbound : flow.Onward size (t.bound flow)) : Ranged flow { t with size } where
  constraint := h.constraint
  base_finite := h.base_finite
  base_nonneg := h.base_nonneg
  started := h.started.trans hstart
  bounded := by
    cases flow with
    | surplus => exact hbound
    | deficit => exact hbound

end Ranged

end Track

variable {flow : Flow} {tracks final result : List (Track Float32)} {amount : Float32}
  {starts : List (List (Track Float32))}

/-- Tracks with room weigh no more than all tracks do. -/
theorem weight_finite (hP : ∀ t ∈ tracks, t.Ranged flow)
    (hw : (total (tracks.map (Track.weight · flow))).isFinite = true) :
    AtLeast (Round.weight flow tracks) 0 ∧ (Round.weight flow tracks).isFinite = true := by
  have hweights : ∀ w ∈ tracks.map (Track.weight · flow), AtLeast w 0 := by
    intro w hw
    obtain ⟨t, ht, rfl⟩ := List.mem_map.mp hw
    exact (hP t ht).weight_nonneg
  have hsublist : ((tracks.filter (Track.hasRoom flow)).map (Track.weight · flow)).Sublist
      (tracks.map (Track.weight · flow)) := List.filter_sublist.map _
  have hnonneg : AtLeast (Round.weight flow tracks) 0 :=
    total_nonneg fun w hw => hweights w (hsublist.subset hw)
  exact ⟨hnonneg,
    ((atMost_value hw).of_le (total_le_of_sublist hsublist hweights)).isFinite hnonneg⟩

theorem weights_eq {us : List (Track Float32)} (h : us.map Track.origin = tracks.map Track.origin)
    (flow : Flow) : us.map (Track.weight · flow) = tracks.map (Track.weight · flow) := by
  have hof : ∀ f : Constraint Float32 × Float32 → Float32,
      us.map (f ∘ Track.origin) = tracks.map (f ∘ Track.origin) := by
    intro f
    rw [← List.map_map, ← List.map_map, h]
  cases flow with
  | surplus => exact hof fun o => o.1.stretch
  | deficit => exact hof Prod.snd

theorem ranged_next {q : ℚ} (hq : Representable q) (hP : ∀ t ∈ tracks, t.Ranged flow)
    (hw : (total (tracks.map (Track.weight · flow))).isFinite = true) (hamount : Within q amount)
    {round : Round Float32} (hround : Round.next? flow tracks amount = some round) :
    (∀ t ∈ round.tracks, t.Ranged flow) ∧ AtMost round.rest q := by
  obtain ⟨hpos, rfl⟩ := Round.next?_eq_some hround
  obtain ⟨hweight, hfinite⟩ := weight_finite hP hw
  have hpos' : 0 < value (Round.weight flow tracks) :=
    (value_pos_iff hfinite).mpr (lt_of_not_le hweight.isNaN (by decide) hpos)
  refine pass_keeps (R := (AtMost · q)) hP hamount.atMost fun t ht hroom rest hrest => ?_
  have hshare : AtLeast (amount * t.weight flow / Round.weight flow tracks) 0 := by
    have hpart := (hP t ht).weight_nonneg.le_value (hP t ht).weight_finite
    exact ((RoundsTo.mul hamount.isFinite (hP t ht).weight_finite).atLeast representable_zero
      (mul_nonneg hamount.value_nonneg hpart)).div hfinite hpos'
  have hsize := (hP t ht).size_finite hroom
  obtain ⟨hstart, hbound⟩ := Track.shared_between hroom hsize hshare
  exact ⟨(hP t ht).moveTo hstart hbound,
    hrest.sub (Track.moved_nonneg hsize hstart) hq (by simp)⟩

theorem Shares.ranged {q : ℚ} (hq : Representable q)
    (h : Shares flow tracks amount starts final result) (hP : ∀ t ∈ tracks, t.Ranged flow)
    (hw : (total (tracks.map (Track.weight · flow))).isFinite = true) (hamount : Within q amount) :
    ∀ t ∈ result, t.Ranged flow := by
  induction h with
  | done _ => exact hP
  | last hnext _ =>
    obtain ⟨hround, -⟩ := ranged_next hq hP hw hamount hnext
    intro t ht
    rcases mem_settled ht with ht | ⟨hpos, u, hu, hroom, rfl⟩
    · exact hround t ht
    · obtain ⟨hstart, hbound⟩ := Track.withRest_between hroom hpos
      exact (hround u hu).moveTo hstart hbound
  | again hnext hlast _ ih =>
    obtain ⟨hround, hrest⟩ := ranged_next hq hP hw hamount hnext
    rw [Round.isLast, Bool.or_eq_false_iff, decide_eq_false_iff_not] at hlast
    refine ih hround ?_ (within_of_not_le_tolerance hrest hlast.2)
    -- A round changes sizes only, so what the tracks weigh together stays finite.
    rw [weights_eq (origins_next hnext)]
    exact hw

namespace Constraint

variable {c : Constraint Float32} {slack size : Float32}

theorem Solvable.min_le_base (h : c.Solvable) : c.min ≤ c.base :=
  (clamp_between (isNaN_of_isFinite h.preferred_finite) h.range).1

theorem Solvable.base_le_max (h : c.Solvable) : c.base ≤ c.max :=
  (clamp_between (isNaN_of_isFinite h.preferred_finite) h.range).2

theorem Solvable.base_finite (h : c.Solvable) : c.base.isFinite = true := by
  have hmax : AtLeast c.max 0 := atLeast_zero_iff.mpr (le_trans h.min_nonneg h.range)
  exact clamp_cases (P := fun x => x.isFinite = true) h.min_finite
    (fun hlt => ((atMost_value h.preferred_finite).of_le (le_of_lt hlt)).isFinite hmax)
    h.preferred_finite

theorem fixed_base (s : Float32) : (fixed s).base = s := by
  unfold base clamp fixed
  split_ifs <;> rfl

/-- The track that a constraint starts as. -/
def start (c : Constraint Float32) : Track Float32 :=
  ⟨c, c.base, c.base⟩

theorem Solvable.start_ranged (h : c.Solvable) (flow : Flow) : c.start.Ranged flow where
  constraint := h
  base_finite := h.base_finite
  base_nonneg := le_trans h.min_nonneg h.min_le_base
  started := .refl flow (isNaN_of_isFinite h.base_finite)
  bounded := by
    cases flow with
    | surplus => exact h.base_le_max
    | deficit => exact h.min_le_base

theorem fixed_noRoom (flow : Flow) (s : Float32) : (fixed s).start.hasRoom flow = false := by
  cases flow with
  | surplus =>
    have hstretch : ¬ (zero : Float32) < 0 := lt_irrefl 0
    simp [Track.hasRoom, Track.weight, start, fixed, hstretch]
  | deficit =>
    have hsize : ¬ s < (fixed s).base := by
      rw [fixed_base]
      exact lt_irrefl s
    simp [Track.hasRoom, Track.beforeBound, start, hsize, show (fixed s).min = s from rfl]

/-- What is known of the size of a track, by how much more space there is than the bases take. Zero
    of either sign is no stretch. -/
structure Sized (c : Constraint Float32) (slack size : Float32) : Prop where
  number : size.isNaN = false
  surplus : tolerance < slack →
    c.base ≤ size ∧ size ≤ c.max ∧ (¬ 0 < c.stretch → size = c.base)
  deficit : slack < -tolerance → c.min ≤ size ∧ size ≤ c.base
  fits : ¬ tolerance < slack → ¬ slack < -tolerance → size = c.base
  range : c.min ≤ size ∧ size ≤ c.max
  fixed : ∀ s, c = .fixed s → size = s

end Constraint

/-- Where space is shared out, every size lies between the base and the bound of its track. -/
theorem Shares.sized {constraints : List (Constraint Float32)} {q : ℚ} (hq : Representable q)
    (h : Shares flow (constraints.map Constraint.start) amount starts final result)
    (hsolvable : ∀ c ∈ constraints, c.Solvable)
    (hw : (total ((constraints.map Constraint.start).map (Track.weight · flow))).isFinite = true)
    (hamount : Within q amount) :
    List.Forall₂ (fun c size => c.Solvable ∧ flow.Onward c.base size ∧
      flow.Onward size (c.start.bound flow) ∧ (c.start.hasRoom flow = false → size = c.base))
      constraints (result.map Track.size) := by
  have hstart : ∀ t ∈ constraints.map Constraint.start, t.Ranged flow := by
    intro t ht
    obtain ⟨c, hc, rfl⟩ := List.mem_map.mp ht
    exact (hsolvable c hc).start_ranged flow
  have hranged := h.ranged hq hstart hw hamount
  have hlength := congrArg List.length h.origins
  simp only [List.length_map] at hlength
  refine List.forall₂_map_right_iff.mpr (List.forall₂_iff_get.mpr ⟨hlength.symm, fun k hk hk' => ?_⟩)
  have ht : (constraints.map Constraint.start)[k]? = some constraints[k].start := by
    rw [List.getElem?_map, List.getElem?_eq_getElem hk, Option.map_some]
  obtain ⟨u, hu, hconstraint, hbase, hstill⟩ := h.result_getElem? ht
  obtain rfl : result[k] = u := Option.some.inj ((List.getElem?_eq_getElem hk').symm.trans hu)
  obtain ⟨-, -, -, hstarted, hbounded⟩ := hranged _ (List.getElem_mem hk')
  refine ⟨hsolvable _ (List.getElem_mem hk), ?_, ?_, fun hroom => congrArg Track.size (hstill hroom)⟩
  · rw [hbase] at hstarted
    exact hstarted
  · have hbound : result[k].bound flow = constraints[k].start.bound flow := by
      rw [Track.bound.eq_def, Track.bound.eq_def, hconstraint]
    rw [hbound] at hbounded
    exact hbounded

namespace Constraint

variable {c : Constraint Float32} {slack size : Float32}

theorem Solvable.sized_of_surplus (h : c.Solvable) (hslack : tolerance < slack)
    (hbase : c.base ≤ size) (hmax : size ≤ c.max)
    (hstill : c.start.hasRoom .surplus = false → size = c.base) : c.Sized slack size where
  number := (le_iff_rank.mp hmax).1
  surplus _ := by
    refine ⟨hbase, hmax, fun hstretch => hstill ?_⟩
    rw [Track.hasRoom, Bool.and_eq_false_iff]
    exact .inl (decide_eq_false hstretch)
  deficit hdeficit := by
    have hle : -tolerance ≤ slack := le_trans (by decide) (le_of_lt hslack)
    exact absurd hdeficit (not_lt_of_le hle)
  fits hfits := absurd hslack hfits
  range := ⟨le_trans h.min_le_base hbase, hmax⟩
  fixed s hs := by
    subst hs
    exact (hstill (fixed_noRoom .surplus s)).trans (fixed_base s)

theorem Solvable.sized_of_deficit (h : c.Solvable) (hslack : slack < -tolerance)
    (hmin : c.min ≤ size) (hbase : size ≤ c.base)
    (hstill : c.start.hasRoom .deficit = false → size = c.base) : c.Sized slack size where
  number := (le_iff_rank.mp hmin).2.1
  surplus hsurplus := by
    have hle : slack ≤ tolerance := le_trans (le_of_lt hslack) (by decide)
    exact absurd hsurplus (not_lt_of_le hle)
  deficit _ := ⟨hmin, hbase⟩
  fits _ hfits := absurd hslack hfits
  range := ⟨hmin, le_trans hbase h.base_le_max⟩
  fixed s hs := by
    subst hs
    exact (hstill (fixed_noRoom .deficit s)).trans (fixed_base s)

theorem Solvable.sized_of_fits (h : c.Solvable) (hsurplus : ¬ tolerance < slack)
    (hdeficit : ¬ slack < -tolerance) : c.Sized slack c.base where
  number := isNaN_of_isFinite h.base_finite
  surplus hslack := absurd hslack hsurplus
  deficit hslack := absurd hslack hdeficit
  fits _ _ := rfl
  range := ⟨h.min_le_base, h.base_le_max⟩
  fixed s hs := by
    subst hs
    exact fixed_base s

end Constraint

/-! ### Solved lists -/

section

variable {constraints : List (Constraint Float32)} (hsolvable : ∀ c ∈ constraints, c.Solvable)

include hsolvable

theorem bases_nonneg : AtLeast (total (constraints.map Constraint.base)) 0 := by
  refine total_nonneg fun w hw => ?_
  obtain ⟨c, hc, rfl⟩ := List.mem_map.mp hw
  exact ((hsolvable c hc).start_ranged .deficit).weight_nonneg

variable (hbases : (total (constraints.map Constraint.base)).isFinite = true)
  (hstretches : (total (constraints.map Constraint.stretch)).isFinite = true) {q : ℚ}

include hbases hstretches

theorem Solves.sized {slack : Float32} {flow? : Option Flow} {solved : List (Track Float32)}
    (h : Solves (constraints.map Constraint.start) slack flow? starts final solved)
    (hq : Representable q) (hmost : AtMost slack q)
    (hleast : AtLeast slack (-value (total (constraints.map Constraint.base)))) :
    List.Forall₂ (Constraint.Sized · slack) constraints (solved.map Track.size) := by
  cases h with
  | surplus hslack shares =>
    have hweights : (constraints.map Constraint.start).map (Track.weight · .surplus) =
        constraints.map Constraint.stretch := List.map_map
    have hamount := within_of_surplus hslack hmost
    exact (shares.sized hq hsolvable (by rwa [hweights]) hamount).imp
      fun c size ⟨hc, hbase, hmax, hstill⟩ => hc.sized_of_surplus hslack hbase hmax hstill
  | deficit _ hslack shares =>
    have hweights : (constraints.map Constraint.start).map (Track.weight · .deficit) =
        constraints.map Constraint.base := List.map_map
    have hamount := within_of_deficit hslack hleast
    exact (shares.sized (value_representable _) hsolvable (by rwa [hweights]) hamount).imp
      fun c size ⟨hc, hbase, hmin, hstill⟩ => hc.sized_of_deficit hslack hmin hbase hstill
  | fits hsurplus hdeficit =>
    rw [List.map_map]
    exact List.forall₂_map_right_iff.mpr (List.forall₂_same.mpr
      fun c hc => (hsolvable c hc).sized_of_fits hsurplus hdeficit)

variable {available : Float32} (hq : Representable q) (havailable : Within q available)

include hq havailable

/-- Sizes are in range also where a share overflows on the way. -/
theorem sized_of_solvable : ∃ sizes, fillTracks constraints available = .ok sizes ∧
    List.Forall₂ (Constraint.Sized · (available - total (constraints.map Constraint.base)))
      constraints sizes := by
  have htracks : constraints.mapM Track.ofConstraint = .ok (constraints.map Constraint.start) :=
    mapM_ofConstraint fun c hc => (hsolvable c hc).base?_eq
  obtain ⟨flow?, starts, final, solved, hsolves, hsizes⟩ := fillTracks_solves htracks available
  have hstarts : (constraints.map Constraint.start).map Track.size =
      constraints.map Constraint.base := List.map_map
  rw [hstarts] at hsolves
  have hmost : AtMost (available - total (constraints.map Constraint.base)) q :=
    havailable.atMost.sub (bases_nonneg hsolvable) hq (by simp)
  have hleast : AtLeast (available - total (constraints.map Constraint.base))
      (-value (total (constraints.map Constraint.base))) :=
    havailable.nonneg.sub (atMost_value hbases) (value_representable _).neg (by simp)
  exact ⟨_, hsizes, hsolves.sized hsolvable hbases hstretches hq hmost hleast⟩

/-- No size is below zero or NaN. It may be infinite. -/
theorem fillTracks_nonneg :
    ∃ sizes, fillTracks constraints available = .ok sizes ∧ ∀ size ∈ sizes, AtLeast size 0 := by
  obtain ⟨sizes, hsizes, hsized⟩ := sized_of_solvable hsolvable hbases hstretches hq havailable
  refine ⟨sizes, hsizes, fun size hsize => ?_⟩
  obtain ⟨k, hk, rfl⟩ := List.mem_iff_getElem.mp hsize
  have hk' : k < constraints.length := hsized.length_eq ▸ hk
  have hrange : (constraints[k]).min ≤ sizes[k] := (hsized.get hk' hk).range.1
  exact atLeast_zero_iff.mpr (le_trans (hsolvable _ (List.getElem_mem hk')).min_nonneg hrange)

end

/-- Sizes lie between the bounds of their tracks, and on that side of the bases where the space is. -/
theorem fillTracks_sized (constraints : List (Constraint Float32)) (available : Float32)
    (accepted : ∀ c ∈ constraints, c.flaw? = none)
    (hbases : (total (constraints.map Constraint.base)).isFinite = true)
    (hstretches : (total (constraints.map Constraint.stretch)).isFinite = true)
    (hfinite : available.isFinite = true) (hnonneg : 0 ≤ available) :
    (∀ c ∈ constraints, c.base? = some c.base) ∧
      ∃ sizes, fillTracks constraints available = .ok sizes ∧
        List.Forall₂ (Constraint.Sized · (available - total (constraints.map Constraint.base)))
          constraints sizes := by
  have hsolvable : ∀ c ∈ constraints, c.Solvable :=
    fun c hc => Constraint.solvable_of_flaw? (accepted c hc)
  exact ⟨fun c hc => (hsolvable c hc).base?_eq, sized_of_solvable hsolvable hbases hstretches
    (value_representable _) (.self hfinite hnonneg)⟩

/-- A button of fixed width, a label that can be narrower but not wider, and a gap whose share is
    infinite before it is divided. -/
def toolbar : List (Constraint Float32) :=
  [.fixed 24, { Constraint.preferring 80 with min := 40, stretch := 0 },
    { Constraint.free with stretch := 1e38 }]

theorem toolbar_sized : (∀ c ∈ toolbar, c.flaw? = none) ∧
    (total (toolbar.map Constraint.base)).isFinite = true ∧
    (total (toolbar.map Constraint.stretch)).isFinite = true ∧
    (∃ sizes, fillTracks toolbar 400 = .ok sizes ∧
      List.Forall₂ (Constraint.Sized · 296) toolbar sizes) ∧
    (∃ sizes, fillTracks toolbar 60 = .ok sizes ∧
      List.Forall₂ (Constraint.Sized · (-44)) toolbar sizes) ∧
    fillTracks toolbar 400 = .ok [24, 80, infinity] ∧
    fillTracks toolbar 60 = .ok [24, 40, 0] := by
  have accepted : ∀ c ∈ toolbar, c.flaw? = none := by decide +kernel
  have hbases : total (toolbar.map Constraint.base) = 104 := by decide +kernel
  have hfinite : (total (toolbar.map Constraint.base)).isFinite = true := by
    rw [hbases]
    rfl
  have hstretches : (total (toolbar.map Constraint.stretch)).isFinite = true := by decide +kernel
  obtain ⟨-, sizes, hsizes, hwide⟩ :=
    fillTracks_sized toolbar 400 accepted hfinite hstretches rfl (by decide)
  obtain ⟨-, sizes', hsizes', hnarrow⟩ :=
    fillTracks_sized toolbar 60 accepted hfinite hstretches rfl (by decide)
  rw [hbases, show (400 : Float32) - 104 = 296 by decide +kernel] at hwide
  rw [hbases, show (60 : Float32) - 104 = -44 by decide +kernel] at hnarrow
  exact ⟨accepted, hfinite, hstretches, ⟨sizes, hsizes, hwide⟩, ⟨sizes', hsizes', hnarrow⟩,
    by decide +kernel, by decide +kernel⟩

end RetainedScene
