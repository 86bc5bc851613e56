/-!
**Text with lone surrogates.**

The text of a source file consists of Unicode scalar values and is a `String`.  A literal inside it
may also denote one half of a surrogate pair by its number, and such a half is kept as it is, never
joined to its neighbour.  Values that come out of literals are therefore texts of code points.

Main definitions:

* `CodePoint` — a scalar value or a lone surrogate;
* `CodeText` — a text of code points;
* `CodePoint.value`, `CodePoint.ofNat?` — the number of a code point, and back;
* `CodeText.ofString`, `CodeText.toString?` — the embedding of ordinary texts.

Main results:

* `CodePoint.ofNat?_value` — numbers determine code points;
* `CodeText.toString?_ofString` — ordinary texts are embedded faithfully.
-/

set_option autoImplicit false
set_option relaxedAutoImplicit false

namespace LocalisedEnum

/-! ### Code points -/

/-- A code point of Unicode: a character, or half of a surrogate pair given by its number. -/
inductive CodePoint where
  | scalar (c : Char)
  | surrogate (n : Nat) (range : 0xD800 ≤ n ∧ n < 0xE000)
  deriving DecidableEq, Repr

namespace CodePoint

/-- The number of a code point. -/
def value : CodePoint → Nat
  | scalar c => c.toNat
  | surrogate n _ => n

/-- The code point with a given number; there are none past the end of Unicode. -/
def ofNat? (n : Nat) : Option CodePoint :=
  if h : n.isValidChar then some (scalar (Char.ofNatAux n h))
  else if h : 0xD800 ≤ n ∧ n < 0xE000 then some (surrogate n h)
  else none

theorem ofNat?_value (p : CodePoint) : ofNat? p.value = some p := by
  cases p with
  | scalar c => exact dif_pos c.valid
  | surrogate n range =>
    have h : ¬ n.isValidChar := by
      simp only [Nat.isValidChar]
      omega
    exact (dif_neg h).trans (dif_pos range)

theorem value_injective {p q : CodePoint} (h : p.value = q.value) : p = q := by
  have := congrArg ofNat? h
  simpa [ofNat?_value] using this

/-- The character of a code point that is one. -/
def char? : CodePoint → Option Char
  | scalar c => some c
  | surrogate _ _ => none

end CodePoint

/-! ### Texts -/

/-- A text of code points. -/
abbrev CodeText : Type := List CodePoint

namespace CodeText

/-- An ordinary text as a text of code points. -/
def ofString (s : String) : CodeText :=
  s.toList.map .scalar

/-- The ordinary text that a text of code points is, if it has no lone surrogate. -/
def toString? (t : CodeText) : Option String :=
  (t.mapM CodePoint.char?).map String.ofList

/-- The ordinary text closest to a text of code points: lone surrogates become U+FFFD. -/
def toScalars (t : CodeText) : String :=
  String.ofList (t.map fun p => p.char?.getD (Char.ofNat 0xFFFD))

/-- The order of texts by the numbers of their code points. -/
def le (s t : CodeText) : Bool :=
  !((t.map CodePoint.value) < (s.map CodePoint.value))

theorem mapM_char?_map_scalar (cs : List Char) :
    (cs.map CodePoint.scalar).mapM CodePoint.char? = some cs := by
  induction cs with
  | nil => rfl
  | cons c cs ih => simp [CodePoint.char?, ih]

theorem toString?_ofString (s : String) : toString? (ofString s) = some s := by
  rw [toString?, ofString, mapM_char?_map_scalar, Option.map_some, String.ofList_toList]

theorem toScalars_ofString (s : String) : toScalars (ofString s) = s := by
  have h : (fun p : CodePoint => p.char?.getD (Char.ofNat 0xFFFD)) ∘ CodePoint.scalar = id := rfl
  simp [toScalars, ofString, h]

theorem ofString_injective {s t : String} (h : ofString s = ofString t) : s = t := by
  have := congrArg toString? h
  simpa [toString?_ofString] using this

end CodeText

end LocalisedEnum
