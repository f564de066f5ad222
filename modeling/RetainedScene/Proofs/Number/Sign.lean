import RetainedScene.Proofs.Number.Packing

/-!
# Binary32 numbers that are not negative

Whatever overflows or is NaN, sums, products and quotients of numbers that do not lie below zero do
not lie below zero either.
-/

set_option autoImplicit false

namespace RetainedScene

/-- What holds of the first number and is kept by adding another one holds of the sum. -/
theorem Scalar.total_of {α : Type} [Scalar α] {P Q : α → Prop} {xs : List α}
    (hzero : P Scalar.zero) (h : ∀ x ∈ xs, Q x) (hfirst : ∀ x, Q x → P x)
    (hadd : ∀ x y, P x → Q y → P (x + y)) : P (total xs) := by
  have hfold : ∀ (ys : List α) (x : α), (∀ y ∈ ys, Q y) → P x → P (ys.foldl (· + ·) x) := by
    intro ys
    induction ys with
    | nil => exact fun x _ hx => hx
    | cons y ys ih =>
      intro x hys hx
      exact ih _ (fun z hz => hys z (List.mem_cons_of_mem _ hz))
        (hadd x y hx (hys y List.mem_cons_self))
  cases xs with
  | nil => exact hzero
  | cons x ys =>
    exact hfold ys x (fun y hy => h y (List.mem_cons_of_mem _ hy))
      (hfirst x (h x List.mem_cons_self))

namespace Binary32

open Float.Model (Format UnpackedFloat)
open Float.Model.UnpackedFloat

/-- Both zeros and NaN have no sign. -/
def Unsigned : UnpackedFloat → Prop
  | .infinity sign => sign = .positive
  | .finite sign _ _ _ => sign = .positive
  | _ => True

theorem unsigned_round (m : Nat) (e : ℤ) (accuracy : Accuracy) :
    Unsigned (roundWithAccuracy .binary32 .positive m e accuracy) := by
  unfold roundWithAccuracy
  dsimp only
  split_ifs
  · trivial
  · rfl

theorem unsigned_normalize {n : ℤ} (hn : 0 ≤ n) (e : ℤ) (sign : Sign) :
    Unsigned (normalize .binary32 n e sign) := by
  unfold UnpackedFloat.normalize
  rcases hn.eq_or_lt with rfl | hpos
  · trivial
  · rw [compare_gt_iff_gt.mpr hpos]
    exact unsigned_round ..

section

variable {u v : UnpackedFloat}

theorem Unsigned.add (hu : Unsigned u) (hv : Unsigned v) : Unsigned (u.add .binary32 v) := by
  cases u <;> cases v <;> try first | trivial | exact hu | exact hv
  case infinity.infinity s t =>
    obtain rfl : s = .positive := hu
    obtain rfl : t = .positive := hv
    rfl
  case zero.zero s t =>
    simp only [UnpackedFloat.add]
    split_ifs <;> trivial
  case finite.finite s m e hm t n f hn =>
    obtain rfl : s = .positive := hu
    obtain rfl : t = .positive := hv
    exact unsigned_normalize (add_nonneg (Int.natCast_nonneg _) (Int.natCast_nonneg _)) _ _

theorem Unsigned.mul (hu : Unsigned u) (hv : Unsigned v) : Unsigned (u.mul .binary32 v) := by
  cases u <;> cases v <;> try trivial
  case infinity.infinity s t =>
    obtain rfl : s = .positive := hu
    obtain rfl : t = .positive := hv
    rfl
  case infinity.finite s t n f hn =>
    obtain rfl : s = .positive := hu
    obtain rfl : t = .positive := hv
    rfl
  case finite.infinity s m e hm t =>
    obtain rfl : s = .positive := hu
    obtain rfl : t = .positive := hv
    rfl
  case finite.finite s m e hm t n f hn =>
    obtain rfl : s = .positive := hu
    obtain rfl : t = .positive := hv
    exact unsigned_round ..

/-- A division by a zero could bring in the sign of the zero. -/
theorem Unsigned.div (hu : Unsigned u) (hv : Unsigned v) (hzero : ∀ sign, v ≠ .zero sign) :
    Unsigned (u.div .binary32 v) := by
  cases u <;> cases v <;> try first | trivial | exact absurd rfl (hzero _)
  case infinity.finite s t n f hn =>
    obtain rfl : s = .positive := hu
    obtain rfl : t = .positive := hv
    rfl
  case finite.finite s m e hm t n f hn =>
    obtain rfl : s = .positive := hu
    obtain rfl : t = .positive := hv
    exact unsigned_round ..

theorem unsigned_unpack {b : BitVec 32} (h : @unpackSign .binary32 b = 0#1) :
    Unsigned (unpack .binary32 b) := by
  have hsign : Sign.ofBitVec (@unpackSign .binary32 b) = .positive := by
    rw [h]
    rfl
  unfold unpack
  simp only [hsign]
  split_ifs <;> trivial

theorem Unsigned.pack (h : Unsigned u) : Unsigned (unpack .binary32 (u.pack .binary32)) := by
  cases u with
  | notANumber => trivial
  | infinity s =>
    obtain rfl : s = .positive := h
    rfl
  | zero s =>
    change Unsigned (unpack .binary32 (packedZero .binary32 s))
    rw [unpack_packedZero]
    trivial
  | finite s m e hm =>
    obtain rfl : s = .positive := h
    refine unsigned_unpack ?_
    simp only [UnpackedFloat.pack]
    split_ifs <;> exact unpackSign_packComponents ..

end

variable {x y : Float32}

theorem unsigned_iff : Unsigned x.toModel.unpack ↔ ¬ x < 0 := by
  have hcompare : x < 0 ↔ x.toModel.unpack.compare (.zero .positive) = some .lt :=
    decide_eq_true_iff.trans beq_iff_eq
  rw [hcompare]
  cases x.toModel.unpack with
  | notANumber => simp [Unsigned, UnpackedFloat.compare]
  | infinity s => cases s <;> simp [Unsigned, UnpackedFloat.compare]
  | zero s => simp [Unsigned, UnpackedFloat.compare]
  | finite s m e hm => cases s <;> simp [Unsigned, UnpackedFloat.compare]

theorem not_zero_of_pos (h : ¬ x ≤ 0) (sign : Sign) : x.toModel.unpack ≠ .zero sign := by
  intro hzero
  apply h
  have hcompare : x ≤ 0 ↔ (x.toModel.unpack.compare (.zero .positive)).any (·.isLE) = true :=
    decide_eq_true_iff
  rw [hcompare, hzero]
  rfl

theorem add_not_neg (hx : ¬ x < 0) (hy : ¬ y < 0) : ¬ x + y < 0 :=
  unsigned_iff.mp (((unsigned_iff.mpr hx).add (unsigned_iff.mpr hy)).pack)

theorem mul_not_neg (hx : ¬ x < 0) (hy : ¬ y < 0) : ¬ x * y < 0 :=
  unsigned_iff.mp (((unsigned_iff.mpr hx).mul (unsigned_iff.mpr hy)).pack)

theorem div_not_neg (hx : ¬ x < 0) (hy : ¬ y < 0) (hpos : ¬ y ≤ 0) : ¬ x / y < 0 :=
  unsigned_iff.mp (((unsigned_iff.mpr hx).div (unsigned_iff.mpr hy) (not_zero_of_pos hpos)).pack)

theorem total_not_neg {xs : List Float32} (h : ∀ x ∈ xs, ¬ x < 0) : ¬ Scalar.total xs < 0 :=
  Scalar.total_of (P := fun x => ¬ x < 0) (by decide) h (fun _ hx => hx)
    fun _ _ hx hy => add_not_neg hx hy

end Binary32

end RetainedScene
