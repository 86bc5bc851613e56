import LocalisedEnum.Text.CodePoint

/-!
**Blank characters.**

White space separates tokens, surrounds settings and makes a text count as not supplied.  One class
serves all three: the white space of Unicode together with the four information separators.

Main definitions:

* `isBlank` — the class;
* `trimBlank` — a text without the blanks at either end;
* `CodeText.isBlankText` — a text of blanks only, the empty one included.
-/

set_option autoImplicit false
set_option relaxedAutoImplicit false

namespace LocalisedEnum

/-- A blank character. -/
def isBlank (c : Char) : Bool :=
  let n := c.toNat
  (9 ≤ n && n ≤ 13) || (28 ≤ n && n ≤ 32) || n == 0x85 || n == 0xA0 || n == 0x1680 ||
    (0x2000 ≤ n && n ≤ 0x200A) || n == 0x2028 || n == 0x2029 || n == 0x202F || n == 0x205F ||
    n == 0x3000

/-- A list of characters without the blanks at its start. -/
def dropBlanks (cs : List Char) : List Char :=
  cs.dropWhile isBlank

/-- A list of characters without the blanks at either end. -/
def trimBlanks (cs : List Char) : List Char :=
  (dropBlanks (dropBlanks cs).reverse).reverse

/-- A text without the blanks at either end. -/
def trimBlank (s : String) : String :=
  String.ofList (trimBlanks s.toList)

/-- A blank code point; lone surrogates are not blank. -/
def CodePoint.isBlank : CodePoint → Bool
  | .scalar c => LocalisedEnum.isBlank c
  | .surrogate _ _ => false

/-- A text of blanks only, the empty one included. -/
def CodeText.isBlankText (t : CodeText) : Bool :=
  t.all CodePoint.isBlank

/-- A text of blanks only, the empty one included. -/
def isBlankString (s : String) : Bool :=
  s.toList.all isBlank

end LocalisedEnum
