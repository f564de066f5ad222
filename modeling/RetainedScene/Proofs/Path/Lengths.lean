import RetainedScene.Layout.Path
import RetainedScene.Proofs.Number.Magnitude

/-!
# Lengths of segments

However far apart two points are, their distance is a magnitude. Segments without length add
nothing to the length of a path, bit for bit, and a path that has a length is not tiny.
-/

set_option autoImplicit false

namespace RetainedScene

open Binary32 Scalar

namespace Vec2

variable {a b : Vec2}

theorem isFinite_iff : a.isFinite = true ↔ a.x.isFinite = true ∧ a.y.isFinite = true :=
  Bool.and_eq_true_iff

/-- The sum of two squares, also where a difference is infinite. -/
theorem dot_self_magnitude (ha : a.isFinite = true) (hb : b.isFinite = true) :
    Magnitude ((b - a).dot (b - a)) := by
  obtain ⟨hax, hay⟩ := isFinite_iff.mp ha
  obtain ⟨hbx, hby⟩ := isFinite_iff.mp hb
  have hdifference {x y : Float32} (hx : x.isFinite = true) (hy : y.isFinite = true) :
      (x - y).isNaN = false := by
    rw [sub_eq_add_neg]
    exact isNaN_add (atLeast_value hx) (atLeast_value (isFinite_neg.trans hy))
  exact (mul_self_magnitude (hdifference hbx hax)).add (mul_self_magnitude (hdifference hby hay))

theorem distance_magnitude (ha : a.isFinite = true) (hb : b.isFinite = true) :
    Magnitude (a.distance b) :=
  (dot_self_magnitude ha hb).sqrt

theorem atLeast_distance (ha : a.isFinite = true) (hb : b.isFinite = true)
    (h : ¬ a.distance b ≤ 0) : AtLeast (a.distance b) (2 ^ (-75 : ℤ)) :=
  (dot_self_magnitude ha hb).atLeast_sqrt_of_pos h

theorem distance_self (ha : a.isFinite = true) : a.distance a = 0 := by
  obtain ⟨hx, hy⟩ := isFinite_iff.mp ha
  have hzero : a - a = ⟨0, 0⟩ := congrArg₂ Vec2.mk (sub_self hx) (sub_self hy)
  rw [distance, hzero]
  rfl

end Vec2

namespace Segment

variable {points : List Vec2} {closed : Bool} {segment : Segment} {segments : List Segment}

/-- Segments that are not passed over. -/
def hasLength (segment : Segment) : Bool :=
  !(segment.length ≤ 0 : Bool)

theorem hasLength_iff : segment.hasLength = true ↔ ¬ segment.length ≤ 0 := by
  simp [hasLength]

theorem mem_between (h : segment ∈ between points) :
    segment.start ∈ points ∧ segment.stop ∈ points := by
  induction points with
  | nil => cases h
  | cons a rest ih =>
    cases rest with
    | nil => cases h
    | cons b more =>
      rcases List.mem_cons.mp h with rfl | h
      · exact ⟨List.mem_cons_self, List.mem_cons_of_mem _ List.mem_cons_self⟩
      · exact (ih h).imp (List.mem_cons_of_mem _) (List.mem_cons_of_mem _)

theorem mem_chain (h : segment ∈ chain points closed) :
    segment.start ∈ points ∧ segment.stop ∈ points := by
  unfold chain at h
  split at h
  case isTrue =>
    have hmem {p : Vec2} (hp : p ∈ points ++ points.take 1) : p ∈ points :=
      (List.mem_append.mp hp).elim id List.mem_of_mem_take
    exact (mem_between h).imp hmem hmem
  case isFalse => exact mem_between h

/-- Both ends are finite. -/
def Bounded (segment : Segment) : Prop :=
  segment.start.isFinite = true ∧ segment.stop.isFinite = true

theorem chain_bounded (h : ∀ point ∈ points, point.isFinite = true) :
    ∀ segment ∈ chain points closed, segment.Bounded :=
  fun _ hs => (mem_chain hs).imp (h _) (h _)

theorem Bounded.length_magnitude (h : segment.Bounded) : Magnitude segment.length :=
  Vec2.distance_magnitude h.1 h.2

theorem Bounded.length_eq_zero (h : segment.Bounded) (hlength : segment.hasLength = false) :
    segment.length = 0 :=
  h.length_magnitude.eq_zero (by simpa [hasLength] using hlength)

theorem Bounded.atLeast_length (h : segment.Bounded) (hlength : segment.hasLength = true) :
    AtLeast segment.length (2 ^ (-75 : ℤ)) :=
  Vec2.atLeast_distance h.1 h.2 (hasLength_iff.mp hlength)

theorem lengths_magnitude (h : ∀ segment ∈ segments, segment.Bounded) :
    ∀ x ∈ segments.map length, Magnitude x := by
  intro x hx
  obtain ⟨segment, hs, rfl⟩ := List.mem_map.mp hx
  exact (h segment hs).length_magnitude

theorem foldl_filter_hasLength (h : ∀ segment ∈ segments, segment.Bounded) {walked : Float32}
    (hwalked : Magnitude walked) :
    ((segments.filter hasLength).map length).foldl (· + ·) walked =
      (segments.map length).foldl (· + ·) walked := by
  induction segments generalizing walked with
  | nil => rfl
  | cons segment rest ih =>
    obtain ⟨hsegment, hrest⟩ := List.forall_mem_cons.mp h
    rw [List.map_cons, List.foldl_cons]
    cases hlength : segment.hasLength with
    | true =>
      rw [List.filter_cons_of_pos hlength, List.map_cons, List.foldl_cons]
      exact ih hrest (hwalked.add hsegment.length_magnitude)
    | false =>
      rw [List.filter_cons_of_neg (by simp [hlength]), hsegment.length_eq_zero hlength,
        hwalked.add_zero]
      exact ih hrest hwalked

theorem total_filter_hasLength (h : ∀ segment ∈ segments, segment.Bounded) :
    total ((segments.filter hasLength).map length) = total (segments.map length) := by
  have hfilter : ∀ segment ∈ segments.filter hasLength, segment.Bounded :=
    fun segment hs => h segment (List.mem_of_mem_filter hs)
  rw [Magnitude.total_eq_foldl (lengths_magnitude hfilter),
    Magnitude.total_eq_foldl (lengths_magnitude h)]
  exact foldl_filter_hasLength h .zero

/-- Without a segment that has a length, the path has none. -/
theorem total_eq_zero (h : ∀ segment ∈ segments, segment.Bounded)
    (hnone : ∀ segment ∈ segments, segment.hasLength = false) :
    total (segments.map length) = 0 := by
  rw [← total_filter_hasLength h, List.filter_eq_nil_iff.mpr (by simpa using hnone)]
  rfl

theorem exists_hasLength (h : ∀ segment ∈ segments, segment.Bounded)
    (hpos : ¬ total (segments.map length) ≤ 0) :
    ∃ segment ∈ segments, segment.hasLength = true := by
  by_contra hnone
  push Not at hnone
  refine hpos ?_
  rw [total_eq_zero h fun segment hs => by simpa using hnone segment hs]
  decide

theorem atLeast_total_lengths (h : ∀ segment ∈ segments, segment.Bounded)
    (hpos : ¬ total (segments.map length) ≤ 0) :
    AtLeast (total (segments.map length)) (2 ^ (-75 : ℤ)) := by
  obtain ⟨segment, hmem, hlength⟩ := exists_hasLength h hpos
  exact atLeast_total (fun y hy => (lengths_magnitude h y hy).nonneg) (List.mem_map_of_mem hmem)
    (representable_two_zpow (by norm_num) (by norm_num)) ((h segment hmem).atLeast_length hlength)

end Segment

end RetainedScene
