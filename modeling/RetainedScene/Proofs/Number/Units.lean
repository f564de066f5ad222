import RetainedScene.Number.Binary32
import RetainedScene.Proofs.Number.Arithmetic

/-!
# Numbers counted in units

The magnitude of a finite number is a whole number of units of 2⁻¹⁴⁹ that has 24 bits after the
zeros at its end. Each such number is read from its bit pattern and found again by rounding.
-/

set_option autoImplicit false

namespace RetainedScene.Binary32

open Float.Model (Format UnpackedFloat)
open Float.Model.UnpackedFloat

/-- A whole number of units that a finite number has, with `c` and `d` as its parts. -/
structure InUnits (c d : Nat) : Prop where
  below : c < 2 ^ 24
  full : 2 ^ 23 ≤ c ∨ d = 0
  fits : d ≤ 253

section

variable (b : BitVec 32)

theorem toNat_unpackExponent :
    (@unpackExponent .binary32 b).toNat = b.toNat % signWeight / exponentWeight := by
  have hbits : (@unpackExponent .binary32 b).toNat = b.toNat >>> 23 % 2 ^ 8 := rfl
  rw [hbits, Nat.shiftRight_eq_div_pow, signWeight, exponentWeight]
  omega

theorem toNat_unpackMantissa :
    (@unpackMantissa .binary32 b).toNat = b.toNat % signWeight % exponentWeight := by
  have hbits : (@unpackMantissa .binary32 b).toNat = b.toNat >>> 0 % 2 ^ 23 := rfl
  rw [hbits, Nat.shiftRight_zero, signWeight, exponentWeight]
  omega

theorem sign_unpackSign :
    Sign.ofBitVec (@unpackSign .binary32 b) = if signWeight ≤ b.toNat then .negative else .positive := by
  have hbits : (@unpackSign .binary32 b).toNat = b.toNat >>> 31 % 2 ^ 1 := rfl
  rw [Nat.shiftRight_eq_div_pow] at hbits
  have hlt := b.isLt
  have hzero : @unpackSign .binary32 b = 0#1 ↔ ¬ signWeight ≤ b.toNat := by
    rw [← BitVec.toNat_inj, hbits, signWeight]
    simp only [BitVec.toNat_ofNat]
    omega
  by_cases h : signWeight ≤ b.toNat
  · rw [if_pos h, Sign.ofBitVec, if_neg fun hsign => hzero.mp hsign h]
  · rw [if_neg h, Sign.ofBitVec, if_pos (hzero.mpr h)]

end

theorem unitsOfPattern_lt {pattern : Nat} (h : pattern < 2 ^ 24) : unitsOfPattern pattern = pattern := by
  unfold unitsOfPattern exponentWeight
  dsimp only
  split
  · rfl
  · have hone : pattern / 0x800000 = 1 := by omega
    rw [hone, Nat.shiftLeft_zero]
    omega

namespace InUnits

variable {c d : Nat}

theorem unitsOfPattern_eq (h : InUnits c d) : unitsOfPattern (d * 2 ^ 23 + c) = c <<< d := by
  obtain ⟨hbelow, hfull, -⟩ := h
  rcases Nat.eq_zero_or_pos d with rfl | hd
  · rw [Nat.zero_mul, Nat.zero_add, unitsOfPattern_lt hbelow, Nat.shiftLeft_zero]
  · have hfull' : 2 ^ 23 ≤ c := hfull.resolve_right hd.ne'
    have hexponent : (d * 2 ^ 23 + c) / 0x800000 = d + 1 := by omega
    have hmantissa : 0x800000 + (d * 2 ^ 23 + c) % 0x800000 = c := by omega
    unfold unitsOfPattern exponentWeight
    rw [hexponent, hmantissa]
    exact if_neg (by omega)

theorem pattern_lt (h : InUnits c d) : d * 2 ^ 23 + c < 0x7f800000 := by
  have := h.below
  have := h.fits
  omega

theorem roundedQuotient_mul (k : Nat) {den : Nat} (hden : 0 < den) :
    roundedQuotient (k * den) den = k := by
  unfold roundedQuotient
  rw [Nat.mul_div_cancel _ hden, Nat.mul_mod_left]
  exact if_pos hden

/-- Nothing is rounded off. -/
theorem nearest_eq (h : InUnits c d) :
    nearest (c <<< d) 1 = Float32.ofBits (UInt32.ofNat (d * 2 ^ 23 + c)) := by
  have hdropped : (c <<< d / 1).log2 - 23 = d := by
    rw [Nat.div_one]
    rcases h.full with hfull | rfl
    · have hpos : c ≠ 0 := by omega
      have hlow : 23 ≤ c.log2 := (Nat.le_log2 hpos).mpr hfull
      have hhigh : c.log2 < 24 := (Nat.log2_lt hpos).mpr h.below
      have hlog := log2_shiftLeft (Nat.pos_of_ne_zero hpos) d
      omega
    · rcases Nat.eq_zero_or_pos c with rfl | hpos
      · rfl
      · have hhigh : c.log2 < 24 := (Nat.log2_lt hpos.ne').mpr h.below
        rw [Nat.shiftLeft_zero]
        omega
  have hquotient : roundedQuotient (c <<< d) (1 <<< d) = c := by
    rw [Nat.shiftLeft_eq, Nat.one_shiftLeft]
    exact roundedQuotient_mul c (Nat.two_pow_pos d)
  unfold nearest
  rw [hdropped]
  dsimp only
  rw [hquotient]
  exact congrArg (fun n => Float32.ofBits (UInt32.ofNat n)) (Nat.min_eq_left h.pattern_lt.le)

end InUnits

/-- The exponent field counts the zeros, and one more from the first normal number on. -/
theorem exists_inUnits {b : BitVec 32} (h : (unpack .binary32 b).isFinite = true) :
    ∃ c d, InUnits c d ∧ b.toNat % signWeight = d * 2 ^ 23 + c ∧
      valueOf (unpack .binary32 b) =
        signed (if signWeight ≤ b.toNat then .negative else .positive)
          ((c <<< d : Nat) * 2 ^ (-149 : ℤ)) := by
  have hexponent := toNat_unpackExponent b
  have hmantissa := toNat_unpackMantissa b
  have hbias : ((Format.exponentBias .binary32 : ℤ) + (23 : Nat)) = 150 := rfl
  unfold exponentWeight at hexponent hmantissa
  revert h
  rw [← sign_unpackSign]
  unfold unpack
  dsimp only
  split_ifs with hones hinfinite hleast hzero
  · exact fun h => absurd h Bool.false_ne_true
  · exact fun h => absurd h Bool.false_ne_true
  · intro _
    rw [hleast] at hexponent
    rw [hzero] at hmantissa
    change 0 = _ at hexponent
    change 0 = _ at hmantissa
    refine ⟨0, 0, ⟨by omega, .inr rfl, by omega⟩, by omega, ?_⟩
    cases Sign.ofBitVec (@unpackSign .binary32 b) <;> simp [valueOf, signed]
  · intro _
    rw [hleast] at hexponent
    change 0 = _ at hexponent
    refine ⟨(@unpackMantissa .binary32 b).toNat, 0, ⟨by omega, .inr rfl, by omega⟩, by omega, ?_⟩
    rw [hbias, hleast, Nat.shiftLeft_zero]
    rfl
  · intro _
    have hpos : (@unpackExponent .binary32 b).toNat ≠ 0 :=
      fun h => hleast (BitVec.eq_of_toNat_eq h)
    have hlast : (@unpackExponent .binary32 b).toNat ≠ 255 :=
      fun h => hones (BitVec.eq_of_toNat_eq h)
    have hlt : (@unpackExponent .binary32 b).toNat < 2 ^ 8 := BitVec.isLt _
    have happend := toNat_append_one (@unpackMantissa .binary32 b)
    refine ⟨(1#1 ++ @unpackMantissa .binary32 b).toNat, (@unpackExponent .binary32 b).toNat - 1,
      ⟨by omega, .inl (by omega), by omega⟩, by omega, ?_⟩
    have hshift : ((@unpackExponent .binary32 b).toNat : ℤ) - 150 =
        -149 + ((@unpackExponent .binary32 b).toNat - 1 : Nat) := by omega
    rw [hbias, valueOf, hshift, ← shiftLeft_value _ ((@unpackExponent .binary32 b).toNat - 1),
      add_sub_cancel_right]

variable {x : Float32}

theorem InUnits.units_eq {c d : Nat} (h : InUnits c d)
    (hpattern : x.toModel.toBits.toBitVec.toNat % signWeight = d * 2 ^ 23 + c) :
    units x = c <<< d := by
  rw [← h.unitsOfPattern_eq, ← hpattern]
  rfl

theorem value_eq_units (hx : x.isFinite = true) :
    value x = signed (if isNegative x then .negative else .positive) (units x * 2 ^ (-149 : ℤ)) := by
  obtain ⟨c, d, hin, hpattern, hvalue⟩ := exists_inUnits (b := x.toModel.toBits.toBitVec) hx
  have hsign : (if isNegative x then Sign.negative else .positive) =
      if signWeight ≤ x.toBits.toNat then Sign.negative else .positive := by
    simp only [isNegative, decide_eq_true_eq]
  rw [hin.units_eq hpattern, hsign]
  exact hvalue

theorem exists_units (hx : x.isFinite = true) : ∃ c d, InUnits c d ∧ units x = c <<< d := by
  obtain ⟨c, d, hin, hpattern, -⟩ := exists_inUnits (b := x.toModel.toBits.toBitVec) hx
  exact ⟨c, d, hin, hin.units_eq hpattern⟩

theorem isFinite_unpack {b : BitVec 32} (h : b.toNat % signWeight < 0x7f800000) :
    (unpack .binary32 b).isFinite = true := by
  have hexponent := toNat_unpackExponent b
  unfold unpack
  dsimp only
  split_ifs with hones
  · rw [hones] at hexponent
    change 255 = _ at hexponent
    unfold exponentWeight at hexponent
    omega
  · rw [hones] at hexponent
    change 255 = _ at hexponent
    unfold exponentWeight at hexponent
    omega
  all_goals rfl

theorem InUnits.value_nearest {c d : Nat} (h : InUnits c d) :
    (nearest (c <<< d) 1).isFinite = true ∧
      value (nearest (c <<< d) 1) = (c <<< d : Nat) * 2 ^ (-149 : ℤ) := by
  have hlt := h.pattern_lt
  obtain ⟨b, hb⟩ : ∃ b, b = (UInt32.ofNat (d * 2 ^ 23 + c)).toBitVec := ⟨_, rfl⟩
  have hbits : b.toNat = d * 2 ^ 23 + c := by
    rw [hb, UInt32.toNat_toBitVec, UInt32.toNat_ofNat']
    omega
  have hpattern : b.toNat % signWeight = d * 2 ^ 23 + c := by
    unfold signWeight
    omega
  have hfinite := isFinite_unpack (b := b) (by omega)
  have hunpack : (nearest (c <<< d) 1).toModel.unpack = unpack .binary32 b := by
    rw [h.nearest_eq, hb]
    exact (unpack_ofModel_pack (unpack_isCanonical _).1).trans (unpack_isCanonical _).2
  refine ⟨(congrArg UnpackedFloat.isFinite hunpack).trans hfinite, ?_⟩
  obtain ⟨c', d', hin, hpattern', hvalue⟩ := exists_inUnits hfinite
  have hunits : c' <<< d' = c <<< d := by
    rw [← hin.unitsOfPattern_eq, ← h.unitsOfPattern_eq, ← hpattern', hpattern]
  rw [value, hunpack, hvalue, hunits, if_neg (by unfold signWeight; omega)]
  rfl

end RetainedScene.Binary32
