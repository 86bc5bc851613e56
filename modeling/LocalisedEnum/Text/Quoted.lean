import LocalisedEnum.Text.CodePoint
import LocalisedEnum.Text.Printable

/-!
**Quoted texts.**

A message that quotes a value shows it between quotes, so that its ends are visible, and writes
every character without a printed form as an escape, so that the message stays on one line.  The
quotes are single unless that would cost escapes which double quotes save.

Main definitions:

* `hexDigits` — a number in hexadecimal, with a least width;
* `quoteMark` — the quote chosen for a text;
* `quoted` — the quoted text.
-/

set_option autoImplicit false
set_option relaxedAutoImplicit false

namespace LocalisedEnum

/-! ### Escapes -/

/-- The hexadecimal digits of `n`, at least `width` of them. -/
def hexDigits (width n : Nat) : List Char :=
  let digits := Nat.toDigits 16 n
  List.replicate (width - digits.length) '0' ++ digits

/-- The escape that names a code point by its number, in the shortest of the three forms. -/
def numericEscape (n : Nat) : List Char :=
  if n < 0x100 then '\\' :: 'x' :: hexDigits 2 n
  else if n < 0x10000 then '\\' :: 'u' :: hexDigits 4 n
  else '\\' :: 'U' :: hexDigits 8 n

/-- A character as it stands between the quotes `mark`. -/
def quotedChar (mark : Char) (c : Char) : List Char :=
  if c = mark || c = '\\' then ['\\', c]
  else if c = '\n' then ['\\', 'n']
  else if c = '\r' then ['\\', 'r']
  else if c = '\t' then ['\\', 't']
  else if isPrintable c then [c]
  else numericEscape c.toNat

/-- A code point as it stands between the quotes `mark`. -/
def quotedPoint (mark : Char) : CodePoint → List Char
  | .scalar c => quotedChar mark c
  | .surrogate n _ => numericEscape n

/-! ### Quotes -/

/-- The quote for a text: double when it holds single quotes and no double ones. -/
def quoteMark (t : CodeText) : Char :=
  if t.contains (.scalar '\'') && !t.contains (.scalar '"') then '"' else '\''

/-- The quoted form of a text. -/
def quoted (t : CodeText) : String :=
  let mark := quoteMark t
  String.ofList (mark :: t.flatMap (quotedPoint mark) ++ [mark])

/-- The quoted form of an ordinary text. -/
def quotedString (s : String) : String :=
  quoted (.ofString s)

end LocalisedEnum
