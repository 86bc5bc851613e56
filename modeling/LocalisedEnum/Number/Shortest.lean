import LocalisedEnum.Number.Binary64

/-!
**The shortest decimal text of a number.**

A number of the binary64 format is written with the fewest decimal digits that read back as the same
number, and among those with the digits nearest to it.  On the grid of decimals with a given number
of digits only the two neighbours of the number matter: if any point of the grid reads back, one of
them does.

Main definitions:

* `decimalExponent` — where a fraction lies among the powers of ten;
* `shortestDecimal` — the digits and the exponent;
* `RealLayout`, `RealLayout.standard` — when the text is positional and when it has an exponent;
* `Binary64.text` — the text.
-/

set_option autoImplicit false
set_option relaxedAutoImplicit false

namespace LocalisedEnum

/-! ### Digits -/

/-- The integer `k` with `10 ^ (k - 1) ≤ numerator / denominator < 10 ^ k`, for a positive
fraction. -/
def decimalExponent (numerator denominator : Nat) : Int :=
  if denominator ≤ numerator then ((Nat.toDigits 10 (numerator / denominator)).length : Int)
  else
    let atLeast := (denominator + numerator - 1) / numerator
    1 - ((Nat.toDigits 10 (atLeast - 1)).length : Int)

/-- The nearer to the fraction of its two neighbours on the grid of decimals with exponent
`exponent`, if `accept` takes it, else the other.  Of two equally near the even one counts as
nearer. -/
def neighbour? (numerator denominator : Nat) (exponent : Int) (accept : Nat → Bool) : Option Nat :=
  let n := numerator * Nat.pow 10 (-exponent).toNat
  let d := denominator * Nat.pow 10 exponent.toNat
  let nearer := roundHalfEven n d
  let farther := if nearer = n / d then nearer + 1 else n / d
  if accept nearer then some nearer else if accept farther then some farther else none

/-- The first grid, from `count` digits on, that has a decimal reading back as `value`. -/
def shortestFrom (value : Binary64) (numerator denominator : Nat) (k : Int) (count : Nat) :
    (grids : Nat) → Nat × Int
  | 0 =>
    (numerator * Nat.pow 10 (count - k).toNat / (denominator * Nat.pow 10 (k - count).toNat),
      k - count)
  | grids + 1 =>
    let exponent := k - count
    match neighbour? numerator denominator exponent
        fun digits => Binary64.ofDecimal false digits exponent == value with
    | some digits => (digits, exponent)
    | none => shortestFrom value numerator denominator k (count + 1) grids

/-- The fewest digits, nearest to the number, that read back as the positive number
`significand * 2 ^ exponent`, and their exponent.  Seventeen digits always suffice. -/
def shortestDecimal (significand : Nat) (exponent : Int) : Nat × Int :=
  let numerator := significand * Nat.pow 2 exponent.toNat
  let denominator := Nat.pow 2 (-exponent).toNat
  shortestFrom (.finite false significand exponent) numerator denominator
    (decimalExponent numerator denominator) 1 17

/-! ### Layout -/

/-- How a real number is laid out: the decimal exponents that are written positionally, and the
least number of digits of a written exponent. -/
structure RealLayout where
  leastPositional : Int
  greatestPositional : Int
  exponentWidth : Nat

/-- Numbers from `1e-4` up to, but not including, `1e16` are positional; an exponent has a sign and
at least two digits. -/
def RealLayout.standard : RealLayout where
  leastPositional := -4
  greatestPositional := 15
  exponentWidth := 2

/-- An exponent with its sign, padded to the layout's width. -/
def RealLayout.exponentText (layout : RealLayout) (e : Int) : List Char :=
  let digits := Nat.toDigits 10 e.natAbs
  'e' :: (if e < 0 then '-' else '+') ::
    List.replicate (layout.exponentWidth - digits.length) '0' ++ digits

/-- The text of the decimal whose digits are `digits` and whose first digit stands for
`10 ^ leading`.  A positional text always has a point with a digit on either side. -/
def RealLayout.decimalText (layout : RealLayout) (digits : List Char) (leading : Int) : List Char :=
  if layout.leastPositional ≤ leading ∧ leading ≤ layout.greatestPositional then
    if leading < 0 then
      '0' :: '.' :: List.replicate (-leading - 1).toNat '0' ++ digits
    else
      let whole := leading.toNat + 1
      let fraction := digits.drop whole
      digits.take whole ++ List.replicate (whole - digits.length) '0' ++
        '.' :: if fraction.isEmpty then ['0'] else fraction
  else
    match digits with
    | [] => []
    | [digit] => digit :: layout.exponentText leading
    | digit :: rest => digit :: '.' :: rest ++ layout.exponentText leading

/-- The digits without the zeros at their end. -/
def dropTrailingZeros (digits : List Char) : List Char :=
  (digits.reverse.dropWhile (· == '0')).reverse

/-- The text of a positive finite number. -/
def RealLayout.magnitudeText (layout : RealLayout) (significand : Nat) (exponent : Int) :
    List Char :=
  let (digits, e) := shortestDecimal significand exponent
  let written := Nat.toDigits 10 digits
  layout.decimalText (dropTrailingZeros written) (written.length - 1 + e)

/-- The text of a number. -/
def Binary64.text : Binary64 → String
  | .finite negative significand exponent =>
    let magnitude :=
      if significand = 0 then RealLayout.standard.decimalText ['0'] 0
      else RealLayout.standard.magnitudeText significand exponent
    String.ofList (if negative then '-' :: magnitude else magnitude)
  | .infinite negative => if negative then "-inf" else "inf"
  | .nan => "nan"

end LocalisedEnum
