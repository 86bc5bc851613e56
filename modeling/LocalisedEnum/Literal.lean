import LocalisedEnum.Text.CodePoint
import LocalisedEnum.Text.Blank
import LocalisedEnum.Text.Digit
import LocalisedEnum.Text.Segment
import LocalisedEnum.Token

/-!
**The values of string literals.**

A string literal has three written forms.  A regular literal writes some characters as escapes, and
an escape may name any code point by number.  A verbatim literal writes a quote as two.  A raw
literal stands between runs of quotes; when it spans lines, its value is the lines between the first
and the last, each without the margin that the last line shows.  An interpolated literal has no
value here.

Main definitions:

* `EscapeError` — an escape that names no code point;
* `unescape`, `unpairQuotes`, `rawValue` — the values of the three forms;
* `Token.literalValue` — the value of a literal token.
-/

set_option autoImplicit false
set_option relaxedAutoImplicit false

namespace LocalisedEnum

/-! ### Escapes -/

/-- An escape names a number that is no code point: past the end of Unicode, or past the machine
integers altogether. -/
inductive EscapeError where
  | pastUnicode
  | pastMachineInteger
  deriving DecidableEq, Repr

/-- The text of an escape error. -/
def EscapeError.message : EscapeError → String
  | pastUnicode => "chr() arg not in range(0x110000)"
  | pastMachineInteger => "Python int too large to convert to C int"

/-- The code point that an escape names. -/
def codePointOf (n : Nat) : Except EscapeError CodePoint :=
  match CodePoint.ofNat? n with
  | some p => .ok p
  | none => .error (if n < 0x80000000 then .pastUnicode else .pastMachineInteger)

/-- The worth of an ASCII hexadecimal digit. -/
def hexValue? (c : Char) : Option Nat :=
  if c.toNat < 128 then digitValueIn? 16 c else none

/-- The number of hexadecimal digits at the start, at most `limit`. -/
def hexRun (limit : Nat) (cs : List Char) : Nat :=
  ((cs.take limit).takeWhile fun c => (hexValue? c).isSome).length

/-- The number that the first `count` characters denote in hexadecimal. -/
def hexNumber (count : Nat) (cs : List Char) : Nat :=
  (cs.take count).foldl (fun n c => n * 16 + (hexValue? c).getD 0) 0

/-- How many hexadecimal digits belong to an escape that begins with the letter `c`: four after `u`,
eight after `U`, one to four after `x`.  None means that the escape is not numeric. -/
def numericEscapeDigits? (c : Char) (rest : List Char) : Option Nat :=
  let exactly (count : Nat) := if hexRun count rest = count then some count else none
  if c = 'u' then exactly 4
  else if c = 'U' then exactly 8
  else if c = 'x' then
    match hexRun 4 rest with
    | 0 => none
    | count + 1 => some (count + 1)
  else none

/-- The character that an escape of one character denotes; most denote themselves. -/
def simpleEscape (c : Char) : Char :=
  if c = '0' then Char.ofNat 0
  else if c = 'a' then Char.ofNat 7
  else if c = 'b' then Char.ofNat 8
  else if c = 'f' then Char.ofNat 12
  else if c = 'n' then '\n'
  else if c = 'r' then '\r'
  else if c = 't' then '\t'
  else if c = 'v' then Char.ofNat 11
  else c

/-- The value of the body of a regular literal. -/
def unescape : List Char → Except EscapeError CodeText
  | [] => .ok []
  | [c] => .ok [.scalar c]
  | c :: d :: rest =>
    if c = '\\' then
      match numericEscapeDigits? d rest with
      | some count => do
        let p ← codePointOf (hexNumber count rest)
        let tail ← unescape (rest.drop count)
        return p :: tail
      | none => do
        let tail ← unescape rest
        return .scalar (simpleEscape d) :: tail
    else do
      let tail ← unescape (d :: rest)
      return .scalar c :: tail
  termination_by cs => cs.length
  decreasing_by all_goals (simp only [List.length_drop, List.length_cons]; omega)

/-! ### Verbatim and raw literals -/

/-- The value of the body of a verbatim literal: two quotes are one. -/
def unpairQuotes : List Char → List Char
  | '"' :: '"' :: rest => '"' :: unpairQuotes rest
  | c :: rest => c :: unpairQuotes rest
  | [] => []

/-- A line without the margin, or without the blanks at its start where the margin is not there. -/
def withoutMargin (margin line : List Char) : List Char :=
  (dropStart? margin line).getD (dropBlanks line)

/-- The value of the body of a raw literal: as it stands when it fits on a line. -/
def rawValue (body : List Char) : List Char :=
  if body.contains '\n' then
    let lines := splitOn '\n' body
    let margin := lines.getLastD []
    joinSegments '\n' ((lines.drop 1).dropLast.map (withoutMargin margin))
  else body

/-! ### Literal tokens -/

/-- The characters of a list without `front` at its start and `back` at its end. -/
def inner (front back : Nat) (cs : List Char) : List Char :=
  (cs.drop front).take (cs.length - front - back)

/-- The value of a string literal; tokens that are not literals or are interpolated have none. -/
def Token.literalValue (t : Token) : Except EscapeError (Option CodeText) :=
  let cs := t.text.toList
  match t.kind with
  | .string =>
    if cs.head? == some '$' then .ok none else (unescape (inner 1 1 cs)).map some
  | .verbatim =>
    .ok (if (cs.take 2).contains '$' then none
      else some ((unpairQuotes (inner 2 1 cs)).map .scalar))
  | .raw =>
    let quotes := (cs.takeWhile (· == '"')).length
    .ok (if cs.head? == some '$' then none
      else some ((rawValue (inner quotes quotes cs)).map .scalar))
  | _ => .ok none

end LocalisedEnum
