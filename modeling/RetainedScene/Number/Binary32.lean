/-!
# Exact readings of binary32 numbers

Every finite binary32 number is a whole multiple of the least positive one, 2⁻¹⁴⁹. Counting in
that unit turns rounding and remainders into arithmetic on natural numbers.
-/

set_option autoImplicit false

namespace RetainedScene.Binary32

def infinity : Float32 := Float32.ofBits 0x7f800000

/-- Weight of the sign bit in a bit pattern, 2³¹. -/
def signWeight : Nat := 0x80000000

/-- Weight of one exponent step in a bit pattern, which is also the least significand of a normal
    number, 2²³. -/
def exponentWeight : Nat := 0x800000

def isNegative (x : Float32) : Bool :=
  signWeight ≤ x.toBits.toNat

/-- Magnitude that a bit pattern without sign stands for, in units of 2⁻¹⁴⁹. Patterns past the
    finite ones continue the same scale, which is where rounding sees infinity. -/
def unitsOfPattern (pattern : Nat) : Nat :=
  let exponent := pattern / exponentWeight
  if exponent = 0 then pattern
  else (exponentWeight + pattern % exponentWeight) <<< (exponent - 1)

def pattern (x : Float32) : Nat :=
  x.toBits.toNat % signWeight

/-- Magnitude in units of 2⁻¹⁴⁹. -/
def units (x : Float32) : Nat :=
  unitsOfPattern (pattern x)

def withSign (negative : Bool) (x : Float32) : Float32 :=
  if negative then -x else x

/-- Quotient rounded to the nearest whole number, a tie to the even one. -/
def roundedQuotient (num den : Nat) : Nat :=
  let whole := num / den
  let twice := 2 * (num % den)
  if twice < den then whole else if den < twice then whole + 1 else whole + whole % 2

/-- The binary32 nearest to `num / den` units of 2⁻¹⁴⁹, a tie to the even neighbour. A
    significand that rounds up to 2²⁴ carries into the exponent field by itself. -/
def nearest (num den : Nat) : Float32 :=
  let dropped := (num / den).log2 - 23
  let bits := dropped * exponentWeight + roundedQuotient num (den <<< dropped)
  Float32.ofBits (UInt32.ofNat (min bits 0x7f800000))

/-- The binary32 nearest to `num / den`. -/
def ofRatio (num den : Nat) : Float32 :=
  nearest (num <<< 149) den

/-- Remainder of a division that rounds toward zero. It is exact and has the sign of `x`. -/
def remainder (x y : Float32) : Float32 :=
  if !x.isFinite || y.isNaN || y == 0 then 0 / 0
  else if y.isInf then x
  else withSign (isNegative x) (nearest (units x % units y) 1)

/-- Remainder that is brought up by `|y|` where it is negative. -/
def wrap (x y : Float32) : Float32 :=
  let r := remainder x y
  if r < 0 then r + y.abs else r

/-- The binary64 pattern of `n` units: the place of the highest bit as a biased exponent, and
    the bits below it as a fraction of 52 bits. -/
def wideMagnitude (n : Nat) : Nat :=
  if n = 0 then 0 else ((n.log2 + 873) <<< 52) + (n <<< 52 >>> n.log2)

/-- The same number with 53 significant bits, which holds every binary32 number exactly. -/
def widen (x : Float32) : Float :=
  let magnitude :=
    if x.isNaN then 0x7ff8000000000000
    else if x.isInf then 0x7ff0000000000000
    else wideMagnitude (units x)
  Float.ofBits (UInt64.ofNat (if isNegative x then 0x8000000000000000 + magnitude else magnitude))

/-- The bit pattern in eight hexadecimal digits. All NaNs are written alike. -/
def bitText (x : Float32) : String :=
  let digits := Nat.toDigits 16 x.toBits.toNat
  if x.isNaN then "nan" else String.ofList (List.replicate (8 - digits.length) '0' ++ digits)

end RetainedScene.Binary32
