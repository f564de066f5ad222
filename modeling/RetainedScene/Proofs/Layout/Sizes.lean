import RetainedScene.Proofs.Layout.Merging
import RetainedScene.Proofs.Layout.Moves

/-!
# Bounds of track sizes

No track gets a size below zero, whatever overflows while space is shared out. Where the lengths
are at most 2ᵏ, and no stretch is so large that its product with a length overflows, a track gets
at most 2ᵏ⁺²⁴: it grows by at most 2ᵏ in each round, and stops growing there.
-/

set_option autoImplicit false

namespace RetainedScene

open Scalar Binary32

/-- What is more than hardly anything, or NaN, does not lie below zero. -/
theorem Binary32.not_neg_of_not_le_tolerance {x : Float32} (h : ¬ x ≤ tolerance) : ¬ x < 0 :=
  fun hlt => h (le_trans (le_of_lt hlt) (by decide))

/-! ### Sizes are not negative -/

namespace Track

/-- A track whose range and size are in order, or whose size is NaN. -/
structure Sound (t : Track Float32) : Prop where
  constraint : t.constraint.Solvable
  size : ¬ t.size < 0

theorem Sound.max_not_neg {t : Track Float32} (h : t.Sound) : ¬ t.constraint.max < 0 :=
  not_lt_of_le (le_trans h.constraint.min_nonneg h.constraint.range)

end Track

theorem weight_not_neg {tracks : List (Track Float32)} (h : ∀ t ∈ tracks, t.Sound) :
    ¬ Round.weight .surplus tracks < 0 := by
  refine total_not_neg fun w hw => ?_
  obtain ⟨t, ht, rfl⟩ := List.mem_map.mp hw
  exact not_lt_of_le (h t (List.mem_filter.mp ht).1).constraint.stretch_nonneg

namespace Track

variable {t : Track Float32} (h : t.Sound)

include h

theorem Sound.shared_surplus {amount weight : Float32} (hamount : ¬ amount < 0)
    (hweight : ¬ weight < 0) (hpos : ¬ weight ≤ 0) : ¬ t.shared amount weight .surplus < 0 := by
  unfold shared
  split
  · exact h.max_not_neg
  · have hstretch := not_lt_of_le h.constraint.stretch_nonneg
    exact add_not_neg h.size (div_not_neg (mul_not_neg hamount hstretch) hweight hpos)

/-- Whatever the target is, a track does not shrink below its minimum. -/
theorem Sound.shared_deficit (amount weight : Float32) : ¬ t.shared amount weight .deficit < 0 := by
  unfold shared
  split
  case isTrue => exact not_lt_of_le h.constraint.min_nonneg
  case isFalse htarget =>
    intro hneg
    exact htarget (decide_eq_true (le_trans (le_of_lt hneg) h.constraint.min_nonneg))

theorem Sound.withRest {rest : Float32} (hrest : ¬ rest < 0) (flow : Flow) :
    ¬ t.withRest rest flow < 0 := by
  cases flow with
  | surplus =>
    exact Constraint.lesser_of (P := fun x => ¬ x < 0) (add_not_neg h.size hrest) h.max_not_neg
  | deficit =>
    have hmin := h.constraint.min_nonneg
    change ¬ greater (t.size - rest) t.constraint.min < 0
    rcases greater_cases (t.size - rest) (isNaN_of_isFinite h.constraint.min_finite) with ⟨hlt, heq⟩ | heq <;> rw [heq]
    · exact not_lt_of_le (le_trans hmin (le_of_lt hlt))
    · exact not_lt_of_le hmin

end Track

theorem upkeep_sound (flow : Flow) :
    Upkeep flow Track.Sound (fun amount => ¬ amount < 0) fun _ => True where
  start _ _ := trivial
  again _ _ h := not_neg_of_not_le_tolerance h
  step tracks amount hP hA hweight t ht hroom rest _ := by
    refine ⟨⟨(hP t ht).constraint, ?_⟩, trivial⟩
    cases flow with
    | surplus => exact (hP t ht).shared_surplus hA (weight_not_neg hP) hweight
    | deficit => exact (hP t ht).shared_deficit amount _
  last t rest ht _ _ hpos := ⟨ht.constraint, ht.withRest (not_lt_of_le (le_of_lt hpos)) flow⟩

theorem clamp_cases {P : Float32 → Prop} {x low high : Float32} (hlow : P low)
    (hhigh : high < x → P high) (hx : P x) : P (clamp x low high) := by
  unfold clamp
  split_ifs with _ hlt
  · exact hlow
  · exact hhigh hlt
  · exact hx

def Constraint.base (c : Constraint Float32) : Float32 :=
  clamp c.preferred c.min c.max

theorem Constraint.Solvable.start_sound {c : Constraint Float32} (h : c.Solvable) :
    Track.Sound ⟨c, c.base, c.base⟩ where
  constraint := h
  size := clamp_cases (P := fun x => ¬ x < 0) (not_lt_of_le h.min_nonneg)
    (fun _ => not_lt_of_le (le_trans h.min_nonneg h.range)) (not_lt_of_le h.preferred_nonneg)

theorem neg_nonneg {x : Float32} (h : x < -tolerance) : 0 ≤ -x := by
  have hle : x ≤ 0 := le_trans (le_of_lt h) (by decide)
  have hmost : AtMost x 0 := (atMost_value (x := 0) rfl).of_le hle
  exact atLeast_zero_iff.mp (by simpa using hmost.neg)

theorem fillTracks_not_neg {constraints : List (Constraint Float32)}
    (h : ∀ c ∈ constraints, c.Solvable) (available : Float32) :
    ∃ sizes, fillTracks constraints available = .ok sizes ∧ ∀ size ∈ sizes, ¬ size < 0 := by
  refine fillTracks_keeps (fun c hc => (h c hc).base?_eq) available
    (fun c hc => (h c hc).start_sound.size) fun tracks htracks slack _ => ?_
  have hstart : ∀ t ∈ tracks, t.Sound := by
    subst htracks
    intro t ht
    obtain ⟨c, hc, rfl⟩ := List.mem_map.mp ht
    exact (h c hc).start_sound
  constructor
  · intro hslack t ht
    have hnonneg : ¬ slack < 0 := not_lt_of_le (le_trans (by decide) (le_of_lt hslack))
    exact ((upkeep_sound .surplus).shareOut _ hstart hnonneg t ht).size
  · intro hslack t ht
    exact ((upkeep_sound .deficit).shareOut _ hstart (not_lt_of_le (neg_nonneg hslack)) t ht).size

/-! ### Sizes are bounded -/

/-- Lengths of at most 2ᵏ, and a stretch that can be multiplied by one of them. -/
structure Constraint.Modest (k : Nat) (c : Constraint Float32) : Prop where
  min : Within (2 ^ k) c.min
  preferred : Within (2 ^ k) c.preferred
  stretch : Within (2 ^ (127 - k)) c.stretch

namespace Track

/-- Growing tracks may get past 2ᵏ together with the space they get. -/
structure Growing (k : Nat) (t : Track Float32) : Prop where
  constraint : t.constraint.Modest k
  size : Within (2 ^ (k + 24)) t.size

structure Shrinking (k : Nat) (t : Track Float32) : Prop where
  constraint : t.constraint.Modest k
  base : Within (2 ^ k) t.base
  size : Within (2 ^ k) t.size

variable {k : Nat} {t : Track Float32}

/-- The share of one track is at most the whole amount. -/
theorem Growing.share (h : t.Growing k) (hk : k ≤ 78) (hroom : t.hasRoom .surplus = true)
    {amount weight : Float32} (hamount : Within (2 ^ k) amount)
    (hweight : AtLeast weight (value t.constraint.stretch)) :
    Within (2 ^ k) (amount * t.constraint.stretch / weight) := by
  have hstretch := h.constraint.stretch
  have hpos : 0 < value t.constraint.stretch :=
    (value_pos_iff hstretch.isFinite).mpr (hasRoom_surplus hroom).1
  have hproduct : Within (2 ^ k * value t.constraint.stretch) (amount * t.constraint.stretch) := by
    have hpow : (2 : ℚ) ^ k * 2 ^ (127 - k) = 2 ^ 127 := by
      rw [← pow_add, Nat.add_sub_of_le (by omega)]
    have hlimit : 2 ^ k * value t.constraint.stretch ≤ 2 ^ 127 :=
      hpow ▸ mul_le_mul_of_nonneg_left hstretch.value_le (by positivity)
    have hrepresentable : Representable (2 ^ k * value t.constraint.stretch) := by
      refine (value_representable _).two_pow_mul k ?_
      rw [abs_of_nonneg (by positivity)]
      exact hlimit.trans_lt (by norm_num)
    exact hamount.mul (.self hstretch.isFinite (atLeast_zero_iff.mp hstretch.nonneg))
      hrepresentable le_rfl
  exact hproduct.div hweight hpos (representable_two_pow (by omega)) (by positivity) le_rfl

theorem Growing.shared (h : t.Growing k) (hk : k ≤ 78) (hroom : t.hasRoom .surplus = true)
    {amount weight : Float32} (hamount : Within (2 ^ k) amount)
    (hweight : AtLeast weight (value t.constraint.stretch)) :
    Within (2 ^ (k + 24)) (t.shared amount weight .surplus) ∧
      AtLeast (t.moved (t.shared amount weight .surplus) .surplus) 0 := by
  have hshare := h.share hk hroom hamount hweight
  have htarget : Within (2 ^ (k + 24)) (t.target amount weight .surplus) :=
    h.size.add_half (by omega) hshare
  have hgrown := (shared_between hroom h.size.isFinite hshare.nonneg).1
  refine ⟨⟨h.size.nonneg.of_le hgrown, ?_⟩, moved_nonneg h.size.isFinite hgrown⟩
  unfold Track.shared
  split
  case isTrue hreached => exact htarget.atMost.of_le (of_decide_eq_true hreached)
  case isFalse => exact htarget.atMost

theorem Growing.withRest (h : t.Growing k) (hk : k ≤ 78) (hroom : t.hasRoom .surplus = true)
    {rest : Float32} (hrest : Within (2 ^ k) rest) :
    Within (2 ^ (k + 24)) (t.withRest rest .surplus) := by
  have hgrown : Within (2 ^ (k + 24)) (t.size + rest) := h.size.add_half (by omega) hrest
  have hmax := le_of_lt (hasRoom_surplus hroom).2
  change Within (2 ^ (k + 24)) (lesser (t.size + rest) t.constraint.max)
  unfold lesser
  split
  case isTrue => exact hgrown
  case isFalse hnan =>
    split
    case isTrue => exact hgrown
    case isFalse hlt =>
      have hle := le_of_not_lt hgrown.atMost.isNaN (Bool.eq_false_iff.mpr hnan) hlt
      exact ⟨h.size.nonneg.of_le hmax, hgrown.atMost.of_le hle⟩

theorem Shrinking.shared (h : t.Shrinking k) (hroom : t.hasRoom .deficit = true)
    {amount weight : Float32} (hamount : Within (2 ^ (k + 24)) amount)
    (hweight : weight.isFinite = true) (hpos : 0 < value weight) :
    Within (2 ^ k) (t.shared amount weight .deficit) ∧
      AtLeast (t.moved (t.shared amount weight .deficit) .deficit) 0 := by
  have hshare : AtLeast (amount * t.weight .deficit / weight) 0 := by
    have hround := RoundsTo.mul hamount.isFinite h.base.isFinite
    exact (hround.atLeast representable_zero
      (mul_nonneg hamount.value_nonneg h.base.value_nonneg)).div hweight hpos
  obtain ⟨hshrunk, hmin⟩ := shared_between hroom h.size.isFinite hshare
  exact ⟨⟨h.constraint.min.nonneg.of_le hmin, h.size.atMost.of_le hshrunk⟩,
    moved_nonneg h.size.isFinite hshrunk⟩

theorem Shrinking.withRest (h : t.Shrinking k) (hroom : t.hasRoom .deficit = true)
    {rest : Float32} (hrest : 0 < rest) : Within (2 ^ k) (t.withRest rest .deficit) := by
  obtain ⟨hshrunk, hmin⟩ := withRest_between hroom hrest
  exact ⟨h.constraint.min.nonneg.of_le hmin, h.size.atMost.of_le hshrunk⟩

end Track

variable {k : Nat}

/-- What is left to share out after a round is more than hardly anything. -/
theorem within_of_not_le_tolerance {x : Float32} {q : ℚ} (hx : AtMost x q)
    (h : ¬ x ≤ tolerance) : Within q x :=
  ⟨atLeast_zero_iff.mpr (le_of_not_lt hx.isNaN (by decide) (not_neg_of_not_le_tolerance h)), hx⟩

theorem upkeep_growing (hk : k ≤ 78) :
    Upkeep .surplus (Track.Growing k) (Within (2 ^ k)) fun rest => AtMost rest (2 ^ k) where
  start _ hamount := hamount.atMost
  again _ hrest h := within_of_not_le_tolerance hrest h
  step tracks amount hP hA _ t ht hroom rest hrest := by
    have hstretches : ∀ w ∈ (tracks.filter (Track.hasRoom .surplus)).map (Track.weight · .surplus),
        AtLeast w 0 := by
      intro w hw
      obtain ⟨u, hu, rfl⟩ := List.mem_map.mp hw
      exact (hP u (List.mem_filter.mp hu).1).constraint.stretch.nonneg
    have hweight : AtLeast (Round.weight .surplus tracks) (value t.constraint.stretch) :=
      atLeast_total hstretches (List.mem_map_of_mem (List.mem_filter.mpr ⟨ht, hroom⟩))
        (value_representable _) (atLeast_value (hP t ht).constraint.stretch.isFinite)
    obtain ⟨hsize, hmoved⟩ := (hP t ht).shared hk hroom hA hweight
    exact ⟨⟨(hP t ht).constraint, hsize⟩,
      hrest.sub hmoved (representable_two_pow (by omega)) (by simp)⟩
  last t rest ht hroom hrest hpos :=
    ⟨ht.constraint, ht.withRest hk hroom ⟨atLeast_zero_iff.mpr (le_of_lt hpos), hrest⟩⟩

theorem upkeep_shrinking (hk : k ≤ 78) :
    Upkeep .deficit (Track.Shrinking k) (Within (2 ^ (k + 24)))
      fun rest => AtMost rest (2 ^ (k + 24)) where
  start _ hamount := hamount.atMost
  again _ hrest h := within_of_not_le_tolerance hrest h
  step tracks amount hP hA hpos t ht hroom rest hrest := by
    have hweight : Within (2 ^ (k + 24)) (Round.weight .deficit tracks) := by
      refine Within.total (by omega) fun w hw => ?_
      obtain ⟨u, hu, rfl⟩ := List.mem_map.mp hw
      exact (hP u (List.mem_filter.mp hu).1).base
    have hpos' : 0 < value (Round.weight .deficit tracks) :=
      (value_pos_iff hweight.isFinite).mpr (lt_of_not_le hweight.atMost.isNaN (by decide) hpos)
    obtain ⟨hsize, hmoved⟩ := (hP t ht).shared hroom hA hweight.isFinite hpos'
    exact ⟨⟨(hP t ht).constraint, (hP t ht).base, hsize⟩,
      hrest.sub hmoved (representable_two_pow (by omega)) (by simp)⟩
  last _ _ ht hroom _ hpos := ⟨ht.constraint, ht.base, ht.withRest hroom hpos⟩

theorem Constraint.Modest.base_within {c : Constraint Float32} (h : c.Modest k)
    (hrange : c.min ≤ c.max) : Within (2 ^ k) c.base :=
  clamp_cases h.min (fun hlt => ⟨h.min.nonneg.of_le hrange, h.preferred.atMost.of_le (le_of_lt hlt)⟩)
    h.preferred

/-! What is shared out of a surplus, and what is to be made up for in a deficit. -/

theorem within_of_surplus {slack : Float32} {q : ℚ} (h : tolerance < slack) (hq : AtMost slack q) :
    Within q slack :=
  ⟨atLeast_zero_iff.mpr (le_trans (by decide) (le_of_lt h)), hq⟩

theorem within_of_deficit {slack : Float32} {q : ℚ} (h : slack < -tolerance)
    (hq : AtLeast slack (-q)) : Within q (-slack) :=
  ⟨atLeast_zero_iff.mpr (neg_nonneg h), by simpa using hq.neg⟩

theorem fillTracks_within (hk : k ≤ 78) {constraints : List (Constraint Float32)}
    (hsolvable : ∀ c ∈ constraints, c.Solvable) (h : ∀ c ∈ constraints, c.Modest k)
    {available : Float32} (havailable : Within (2 ^ k) available) :
    ∃ sizes, fillTracks constraints available = .ok sizes ∧
      ∀ size ∈ sizes, Within (2 ^ (k + 24)) size := by
  have hpow : (2 : ℚ) ^ k ≤ 2 ^ (k + 24) := pow_le_pow_right₀ (by norm_num) (by omega)
  have hbase : ∀ c ∈ constraints, Within (2 ^ k) c.base :=
    fun c hc => (h c hc).base_within (hsolvable c hc).range
  refine fillTracks_keeps (fun c hc => (hsolvable c hc).base?_eq) available
    (fun c hc => (hbase c hc).mono hpow) fun tracks htracks slack hslack => ?_
  have hstart : ∀ t ∈ tracks, t.Shrinking k := by
    subst htracks
    intro t ht
    obtain ⟨c, hc, rfl⟩ := List.mem_map.mp ht
    exact ⟨h c hc, hbase c hc, hbase c hc⟩
  have htotal : Within (2 ^ (k + 24)) (total (tracks.map Track.size)) := by
    refine Within.total (by omega) fun size hsize => ?_
    obtain ⟨t, ht, rfl⟩ := List.mem_map.mp hsize
    exact (hstart t ht).size
  have hmost : AtMost slack (2 ^ k) :=
    hslack ▸ havailable.atMost.sub htotal.nonneg (representable_two_pow (by omega)) (by simp)
  have hleast : AtLeast slack (-2 ^ (k + 24)) :=
    hslack ▸ havailable.nonneg.sub htotal.atMost (representable_two_pow (by omega)).neg (by simp)
  constructor
  · intro hpos t ht
    have hgrowing : ∀ t ∈ tracks, t.Growing k :=
      fun t ht => ⟨(hstart t ht).constraint, (hstart t ht).size.mono hpow⟩
    exact ((upkeep_growing hk).shareOut _ hgrowing (within_of_surplus hpos hmost) t ht).size
  · intro hneg t ht
    have hamount := within_of_deficit hneg hleast
    exact ((upkeep_shrinking hk).shareOut _ hstart hamount t ht).size.mono hpow

end RetainedScene
