import LocalisedEnum.Text.Blank
import LocalisedEnum.Text.Digit
import LocalisedEnum.Text.Segment
import LocalisedEnum.Number.Shortest

/-!
**Numerals.**

A numeral of the source language is an integer in one of three radices or a real number, with
underscores anywhere and a type suffix at the end.  Its digits may belong to any script.  A numeral
that breaks the rules denotes nothing, and the reader of expressions then keeps its text.

Main definitions:

* `Numeral` — an integer or a real number;
* `readNatural?`, `readInteger?` — integers in a radix;
* `readReal?` — real numbers;
* `Numeral.read?` — a numeral with its underscores and suffix.

A decimal integer has at most `decimalLimit` digits; the other radices have no limit.
-/

set_option autoImplicit false
set_option relaxedAutoImplicit false

namespace LocalisedEnum

/-- What a numeral denotes. -/
inductive Numeral where
  | integer (n : Int)
  | real (x : Binary64)
  deriving DecidableEq, Repr

/-! ### Integers -/

/-- The most digits that a decimal integer may have. -/
def decimalLimit : Nat := 4300

/-- The number that digits, most significant first, denote in a radix. -/
def ofDigits (radix : Nat) (digits : List Nat) : Nat :=
  digits.foldl (fun n d => n * radix + d) 0

/-- A natural number in a radix: one digit or more, and nothing else. -/
def readNatural? (radix : Nat) (cs : List Char) : Option Nat :=
  if cs.isEmpty then none else (cs.mapM (digitValueIn? radix)).map (ofDigits radix)

/-- A blank that may surround a numeral; the information separators may not. -/
def isNumeralBlank (c : Char) : Bool :=
  isBlank c && !(28 ≤ c.toNat && c.toNat ≤ 31)

/-- The characters without the blanks that may follow a numeral. -/
def dropNumeralBlanksAfter (cs : List Char) : List Char :=
  dropEndWhile isNumeralBlank cs

/-- The characters without the blanks that may surround a numeral. -/
def trimNumeral (cs : List Char) : List Char :=
  dropNumeralBlanksAfter (cs.dropWhile isNumeralBlank)

/-- A sign, true for minus, and what follows it; no sign counts as plus. -/
def takeSign : List Char → Bool × List Char
  | '-' :: rest => (true, rest)
  | '+' :: rest => (false, rest)
  | cs => (false, cs)

/-- A number with the given sign. -/
def withSign (negative : Bool) (n : Nat) : Int :=
  if negative then -(n : Int) else n

/-- A decimal integer with an optional sign and blanks around it, of at most `decimalLimit`
digits. -/
def readInteger? (cs : List Char) : Option Int :=
  let (negative, digits) := takeSign (trimNumeral cs)
  if decimalLimit < digits.length then none
  else (readNatural? 10 digits).map (withSign negative)

/-! ### Real numbers -/

/-- The exponent that follows the digits of a real number: nothing, or `e` and an integer. -/
def readExponent? : List Char → Option Int
  | [] => some 0
  | 'e' :: rest =>
    let (negative, digits) := takeSign rest
    (readNatural? 10 digits).map (withSign negative)
  | _ => none

/-- A real number without its sign: digits with at most one point, then an exponent. -/
def readMagnitude? (negative : Bool) (cs : List Char) : Option Binary64 := do
  let whole := cs.takeWhile isDigit
  let rest := cs.dropWhile isDigit
  let (fraction, rest) := match rest with
    | '.' :: rest => (rest.takeWhile isDigit, rest.dropWhile isDigit)
    | _ => ([], rest)
  let digits ← readNatural? 10 (whole ++ fraction)
  let exponent ← readExponent? rest
  return Binary64.ofDecimal negative digits (exponent - fraction.length)

/-- A real number in lower case with an optional sign and blanks around it, the words for infinity
and not-a-number included. -/
def readReal? (cs : List Char) : Option Binary64 :=
  let (negative, body) := takeSign (trimNumeral cs)
  if body = "inf".toList ∨ body = "infinity".toList then some (.infinite negative)
  else if body = "nan".toList then some .nan
  else readMagnitude? negative body

/-! ### Numerals -/

/-- An ASCII capital in lower case, every other character as it is. -/
def lowerAscii (c : Char) : Char :=
  if 'A' ≤ c && c ≤ 'Z' then Char.ofNat (c.toNat + 32) else c

/-- A letter that marks the type of an integer: unsigned or long. -/
def isIntegerSuffix (c : Char) : Bool := c == 'u' || c == 'l'

/-- A letter that marks the type of a real number: float, double or decimal. -/
def isRealSuffix (c : Char) : Bool := c == 'f' || c == 'd' || c == 'm'

/-- The radix that the first two characters announce, if they announce one. -/
def announcedRadix? : List Char → Option (Nat × List Char)
  | '0' :: 'x' :: rest => some (16, rest)
  | '0' :: 'b' :: rest => some (2, rest)
  | _ => none

/-- Whether a numeral in lower case is a real number: it has a point or an exponent, or ends with
the suffix of one. -/
def looksReal (cs : List Char) : Bool :=
  cs.any (fun c => c == '.' || c == 'e') || cs.getLast?.any isRealSuffix

/-- The value of a numeral. -/
def Numeral.read? (text : List Char) : Option Numeral :=
  let cs := (text.filter (· != '_')).map lowerAscii
  match announcedRadix? cs with
  | some (radix, digits) =>
    let digits := dropNumeralBlanksAfter (dropEndWhile isIntegerSuffix digits)
    (readNatural? radix digits).map fun n => .integer n
  | none =>
    if looksReal cs then (readReal? (dropEndWhile isRealSuffix cs)).map .real
    else (readInteger? (dropEndWhile isIntegerSuffix cs)).map .integer

/-- The opposite of a number. -/
def Numeral.neg : Numeral → Numeral
  | integer n => integer (-n)
  | real x => real x.neg

end LocalisedEnum
