import LocalisedEnum.Text.Blank
import LocalisedEnum.Text.CodePoint

/-!
**Lines and their indentation.**

A text falls into lines at every line boundary of Unicode; a carriage return followed by a line feed
is one boundary.  Indenting puts blanks in front of every line that holds more than blanks, and
leaves the boundaries as they are.

Main definitions:

* `isLineEnd` — the characters that end a line;
* `linesWithEnds` — the lines of a text, each with its end;
* `unifyLineEnds`, `CodeText.unifyLineEnds` — a text in which only line feeds end lines of the usual
  kinds;
* `indentBy` — the indented text.

Main results:

* `flatten_linesWithEnds` — no character is lost by falling into lines.
-/

set_option autoImplicit false
set_option relaxedAutoImplicit false

namespace LocalisedEnum

/-! ### Lines -/

/-- A character that ends a line. -/
def isLineEnd (c : Char) : Bool :=
  let n := c.toNat
  (10 ≤ n && n ≤ 13) || (28 ≤ n && n ≤ 30) || n == 0x85 || n == 0x2028 || n == 0x2029

/-- Puts a character in front of the first line; without one it is a line of its own. -/
def extendLine (c : Char) : List (List Char) → List (List Char)
  | [] => [[c]]
  | line :: rest => (c :: line) :: rest

/-- The lines of a text, each with its end.  The empty text has no line. -/
def linesWithEnds : List Char → List (List Char)
  | [] => []
  | c :: rest =>
    if c = '\r' && rest.head? == some '\n' then extendLine c (linesWithEnds rest)
    else if isLineEnd c then [c] :: linesWithEnds rest
    else extendLine c (linesWithEnds rest)

theorem flatten_extendLine (c : Char) (ls : List (List Char)) :
    (extendLine c ls).flatten = c :: ls.flatten := by
  cases ls <;> simp [extendLine]

theorem flatten_linesWithEnds (cs : List Char) : (linesWithEnds cs).flatten = cs := by
  induction cs with
  | nil => rfl
  | cons c rest ih =>
    simp only [linesWithEnds]
    split
    · simp [flatten_extendLine, ih]
    · split
      · simp [ih]
      · simp [flatten_extendLine, ih]

/-- The characters with a line feed for every carriage return, alone or in front of a line feed. -/
def unifyLineEnds : List Char → List Char
  | [] => []
  | '\r' :: '\n' :: rest => '\n' :: unifyLineEnds rest
  | c :: rest => (if c = '\r' then '\n' else c) :: unifyLineEnds rest

theorem unifyLineEnds_eq_self {cs : List Char} (h : '\r' ∉ cs) : unifyLineEnds cs = cs := by
  fun_induction unifyLineEnds cs with
  | case1 => rfl
  | case2 => exact absurd List.mem_cons_self h
  | case3 c rest _ ih =>
    have hc : c ≠ '\r' := fun hc => h (hc ▸ List.mem_cons_self)
    rw [if_neg hc, ih fun hr => h (List.mem_cons_of_mem _ hr)]

/-- The same for a text of code points. -/
def CodeText.unifyLineEnds : CodeText → CodeText
  | [] => []
  | .scalar '\r' :: .scalar '\n' :: rest => .scalar '\n' :: unifyLineEnds rest
  | p :: rest => (if p = .scalar '\r' then .scalar '\n' else p) :: unifyLineEnds rest

theorem CodeText.unifyLineEnds_map_scalar (cs : List Char) :
    CodeText.unifyLineEnds (cs.map .scalar) = (LocalisedEnum.unifyLineEnds cs).map .scalar := by
  fun_induction LocalisedEnum.unifyLineEnds cs with
  | case1 => rfl
  | case2 rest ih =>
    rw [List.map_cons, List.map_cons, CodeText.unifyLineEnds, ih, List.map_cons]
  | case3 c rest hpair ih =>
    rw [List.map_cons, CodeText.unifyLineEnds, ih, List.map_cons]
    · congr 1
      by_cases hc : c = '\r'
      · rw [if_pos hc, if_pos (congrArg _ hc)]
      · rw [if_neg hc, if_neg fun heq => hc (CodePoint.scalar.inj heq)]
    · intro rest' hc hrest
      obtain ⟨c', tail, rfl, hc', _⟩ := List.map_eq_cons_iff.1 hrest
      exact hpair tail (CodePoint.scalar.inj hc) (by rw [CodePoint.scalar.inj hc'])

/-! ### Indentation -/

/-- The text with `margin` in front of every line that is not blank. -/
def indentBy (margin : String) (text : String) : String :=
  String.ofList <| (linesWithEnds text.toList).flatMap fun line =>
    if line.all isBlank then line else margin.toList ++ line

end LocalisedEnum
