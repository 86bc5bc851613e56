/-!
**Numbers of the binary64 format.**

A real literal denotes the number of the binary64 format nearest to what it says; of two equally
near ones the one with the even significand.  The format is small enough to be written down exactly:
a finite number is a significand below `2 ^ 53` times a power of two, and everything below is
arithmetic on natural numbers.

Main definitions:

* `Binary64` — the numbers of the format, infinities and not-a-number included;
* `roundHalfEven` — the natural number nearest to a fraction;
* `Binary64.ofFraction`, `Binary64.ofDecimal` — the number nearest to a fraction or a decimal;
* `Binary64.neg` — the opposite number.
-/

set_option autoImplicit false
set_option relaxedAutoImplicit false

namespace LocalisedEnum

/-- A number of the binary64 format.  A finite number is `significand * 2 ^ exponent` with its sign,
so that zero has one. -/
inductive Binary64 where
  | finite (negative : Bool) (significand : Nat) (exponent : Int)
  | infinite (negative : Bool)
  | nan
  deriving DecidableEq, Repr

/-! ### Rounding -/

/-- The natural number nearest to `numerator / denominator`, the even one of two equally near. -/
def roundHalfEven (numerator denominator : Nat) : Nat :=
  let whole := numerator / denominator
  let rest := 2 * (numerator % denominator)
  if rest < denominator then whole
  else if denominator < rest then whole + 1
  else whole + whole % 2

namespace Binary64

/-- The number of binary digits of a significand. -/
def precision : Nat := 53

/-- The exponent of the smallest positive number of the format. -/
def leastExponent : Int := -1074

/-- The largest exponent of a finite number of the format. -/
def greatestExponent : Int := 971

/-- `numerator / denominator` divided by `2 ^ exponent`, as a fraction again. -/
def scaleDown (numerator denominator : Nat) (exponent : Int) : Nat × Nat :=
  (numerator * Nat.pow 2 (-exponent).toNat, denominator * Nat.pow 2 exponent.toNat)

/-- The integer `e` with `2 ^ e ≤ numerator / denominator < 2 ^ (e + 1)`. -/
def floorLog (numerator denominator : Nat) : Int :=
  let guess := (Nat.log2 numerator : Int) - Nat.log2 denominator
  let (n, d) := scaleDown numerator denominator guess
  if d ≤ n then guess else guess - 1

/-- The number nearest to a positive fraction, with a sign. -/
def ofFraction (negative : Bool) (numerator denominator : Nat) : Binary64 :=
  let exponent := max (floorLog numerator denominator - (precision - 1)) leastExponent
  let (n, d) := scaleDown numerator denominator exponent
  let significand := roundHalfEven n d
  let (significand, exponent) :=
    if significand = Nat.pow 2 precision then (Nat.pow 2 (precision - 1), exponent + 1)
    else (significand, exponent)
  if greatestExponent < exponent then infinite negative
  else finite negative significand exponent

/-- The number nearest to `digits * 10 ^ exponent`, with a sign.  Decimals far outside the range of
the format are told by their size alone. -/
def ofDecimal (negative : Bool) (digits : Nat) (exponent : Int) : Binary64 :=
  if digits = 0 then finite negative 0 leastExponent
  else if 400 < exponent then infinite negative
  else if exponent + Nat.log2 digits < -400 then finite negative 0 leastExponent
  else ofFraction negative (digits * Nat.pow 10 exponent.toNat) (Nat.pow 10 (-exponent).toNat)

/-- The opposite number; not-a-number has no sign. -/
def neg : Binary64 → Binary64
  | finite negative significand exponent => finite (!negative) significand exponent
  | infinite negative => infinite (!negative)
  | nan => nan

end Binary64

end LocalisedEnum
