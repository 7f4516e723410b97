/-! The double-precision number nearest to a rational one, in exact arithmetic: 53 bits of significand,
exponents from -1074 on, ties to the even neighbour, nothing from the power 1024 of two on. -/
namespace TypeSketch

/-- A non-negative double, `significand · 2 ^ exponent`. -/
structure Binary64 where
  significand : Nat
  exponent : Int
  deriving DecidableEq, Repr

namespace Binary64

/-- The integer nearest to `numerator / denominator`; a half goes to the even one. -/
def roundHalfEven (numerator denominator : Nat) : Nat :=
  let floor := numerator / denominator
  let twice := 2 * (numerator % denominator)
  if twice < denominator then floor
  else if denominator < twice then floor + 1
  else floor + floor % 2

/-- `numerator / denominator` divided by a power of two, as a fraction again. -/
def scale (numerator denominator : Nat) (exponent : Int) : Nat × Nat :=
  if 0 ≤ exponent then (numerator, denominator <<< exponent.toNat)
  else (numerator <<< (-exponent).toNat, denominator)

/-- The exponent of the greatest power of two that is not above `numerator / denominator`. -/
def magnitude (numerator denominator : Nat) : Int :=
  let guess : Int := (numerator.log2 : Int) - denominator.log2
  let (n, d) := scale numerator denominator guess
  if d ≤ n then guess else guess - 1

/-- The double nearest to a positive fraction; `none` if that is infinity. -/
def nearest? (numerator denominator : Nat) : Option Binary64 :=
  let exponent := max (magnitude numerator denominator - 52) (-1074)
  let (n, d) := scale numerator denominator exponent
  let significand := roundHalfEven n d
  if 1 <<< 1024 ≤ significand <<< exponent.toNat then none else some ⟨significand, exponent⟩

def isWhole (x : Binary64) : Bool := 0 ≤ x.exponent || x.significand % (1 <<< (-x.exponent).toNat) = 0

/-- The double nearest to `significand · 10 ^ exponent`; `none` if that is infinity.
An exponent beyond all doubles decides alone, so that no huge power is computed: `10 ^ 309` is above them,
and a number of `n` bits over `10 ^ k` with `n + 1075 ≤ 3 · k` is below half the least one. -/
def ofDecimal? (significand : Nat) (exponent : Int) : Option Binary64 :=
  if significand = 0 then some ⟨0, 0⟩
  else if 309 ≤ exponent then none
  else if 0 ≤ exponent then nearest? (significand * Nat.pow 10 exponent.toNat) 1
  else if (significand.log2 : Int) + 1 + 1075 ≤ 3 * -exponent then some ⟨0, 0⟩
  else nearest? significand (Nat.pow 10 (-exponent).toNat)

end Binary64

end TypeSketch
