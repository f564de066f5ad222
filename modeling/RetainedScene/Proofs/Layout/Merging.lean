import RetainedScene.Proofs.Layout.Conditions

/-!
# Merged constraints

A cell whose constraint passes its checks brings proper numbers to the tracks it lies on. Merging
picks among the numbers of the cells, and the lifted maximum puts the bounds back in order, so
that every track has a base size.
-/

set_option autoImplicit false

namespace RetainedScene

open Scalar

namespace Constraint

theorem lesser_eq (a b : Float32) : lesser a b = a ∨ lesser a b = b := by
  rw [lesser]
  split_ifs <;> simp

theorem greater_eq (a b : Float32) : greater a b = a ∨ greater a b = b := by
  rw [greater]
  split_ifs <;> simp

theorem lesser_of {P : Float32 → Prop} {a b : Float32} (ha : P a) (hb : P b) : P (lesser a b) := by
  rcases lesser_eq a b with h | h <;> rwa [h]

theorem greater_of {P : Float32 → Prop} {a b : Float32} (ha : P a) (hb : P b) :
    P (greater a b) := by
  rcases greater_eq a b with h | h <;> rwa [h]

theorem Proper.merge {a b : Constraint Float32} (ha : a.Proper) (hb : b.Proper) :
    (a.merge b).Proper where
  min_finite := greater_of (P := fun x => x.isFinite = true) ha.min_finite hb.min_finite
  min_nonneg := greater_of (P := fun x => 0 ≤ x) ha.min_nonneg hb.min_nonneg
  preferred_finite :=
    greater_of (P := fun x => x.isFinite = true) ha.preferred_finite hb.preferred_finite
  preferred_nonneg := greater_of (P := fun x => 0 ≤ x) ha.preferred_nonneg hb.preferred_nonneg
  stretch_finite := greater_of (P := fun x => x.isFinite = true) ha.stretch_finite hb.stretch_finite
  stretch_nonneg := greater_of (P := fun x => 0 ≤ x) ha.stretch_nonneg hb.stretch_nonneg
  max_number := lesser_of (P := fun x => x.isNaN = false) ha.max_number hb.max_number

theorem free_proper : free.Proper := by
  constructor <;> decide

theorem le_greater {a b : Float32} (hb : b.isNaN = false) :
    b ≤ greater a b := by
  rw [greater, if_neg (by simpa [Scalar.isNaN] using hb)]
  split_ifs with hlt
  · exact Binary32.le_of_lt hlt
  · exact Binary32.le_refl hb

theorem Proper.lifted {c : Constraint Float32} (h : c.Proper) :
    ({ c with max := greater c.max c.min } : Constraint Float32).Solvable where
  toProper := { h with
    max_number := greater_of (P := fun x => x.isNaN = false) h.max_number
      (Binary32.isNaN_of_isFinite h.min_finite) }
  range := le_greater (Binary32.isNaN_of_isFinite h.min_finite)

theorem Solvable.base?_eq {c : Constraint Float32} (h : c.Solvable) :
    c.base? = some (clamp c.preferred c.min c.max) := by
  rw [base?, clamp?]
  exact if_pos h.range

end Constraint

/-- What is true of a free constraint and of the cells on single tracks, and is kept by merging,
    holds of every track until its maximum is lifted. -/
theorem Grid.trackConstraint_eq {P : Constraint Float32 → Prop} {spans : List CellSpan}
    (hfree : P .free) (hmerge : ∀ a b, P a → P b → P (a.merge b))
    (h : ∀ s ∈ spans, s.count = 1 → P s.constraint) (track : Nat) :
    ∃ c, P c ∧ trackConstraint spans track = { c with max := greater c.max c.min } := by
  have hfold : ∀ (rest : List (Constraint Float32)) (c : Constraint Float32), P c →
      (∀ d ∈ rest, P d) → P (rest.foldl Constraint.merge c) := by
    intro rest
    induction rest with
    | nil => exact fun c hc _ => hc
    | cons d rest ih =>
      intro c hc hrest
      exact ih _ (hmerge c d hc (hrest d List.mem_cons_self))
        fun e he => hrest e (List.mem_cons_of_mem _ he)
  have hsingle : ∀ c ∈ (spans.filter fun s => s.count == 1 && s.start.toNat == track).map
      CellSpan.constraint, P c := by
    intro c hc
    obtain ⟨s, hs, rfl⟩ := List.mem_map.mp hc
    obtain ⟨hmem, hon⟩ := List.mem_filter.mp hs
    exact h s hmem (eq_of_beq ((Bool.and_eq_true ..).mp hon).1)
  rw [trackConstraint]
  generalize (spans.filter fun s => s.count == 1 && s.start.toNat == track).map
    CellSpan.constraint = single at hsingle
  cases single with
  | nil => exact ⟨.free, hfree, rfl⟩
  | cons first rest =>
    exact ⟨rest.foldl Constraint.merge first, hfold rest first (hsingle first List.mem_cons_self)
      fun c hc => hsingle c (List.mem_cons_of_mem _ hc), rfl⟩

/-- Bounds that got crossed by merging are in order again. -/
theorem Grid.trackConstraint_solvable {spans : List CellSpan}
    (h : ∀ s ∈ spans, s.constraint.Proper) (track : Nat) :
    (trackConstraint spans track).Solvable := by
  obtain ⟨c, hc, heq⟩ := trackConstraint_eq Constraint.free_proper (fun _ _ => .merge)
    (fun s hs _ => h s hs) track
  rw [heq]
  exact hc.lifted

end RetainedScene
