/-!
**Octets that denote text.**

Decoding cuts octets into pieces: a piece denotes one character, or it is a stretch that denotes
nothing, with the cause.  A strict reader refuses text with such a stretch and says where it is; a
lenient reader puts the replacement character in its place.

Main definitions:

* `DecodeCause`, `Piece` — the pieces, and why a piece denotes nothing;
* `lenientText` — the text that a lenient reader sees;
* `firstFault?`, `strictText` — what a strict reader makes of pieces.

Main results:

* `strictText_eq_lenientText` — where the strict reader succeeds, both read the same.
-/

set_option autoImplicit false
set_option relaxedAutoImplicit false

namespace LocalisedEnum

/-- A sequence of octets. -/
abbrev Octets : Type := List UInt8

/-! ### Pieces -/

/-- Why a stretch of octets denotes nothing. -/
inductive DecodeCause where
  | outOfRange
  | invalidStart
  | invalidContinuation
  | unexpectedEnd
  | truncated
  | illegalUnit
  | illegalSurrogate
  deriving DecidableEq, Repr

/-- The text of a cause. -/
def DecodeCause.message : DecodeCause → String
  | outOfRange => "ordinal not in range(128)"
  | invalidStart => "invalid start byte"
  | invalidContinuation => "invalid continuation byte"
  | unexpectedEnd => "unexpected end of data"
  | truncated => "truncated data"
  | illegalUnit => "illegal encoding"
  | illegalSurrogate => "illegal UTF-16 surrogate"

/-- A stretch of octets with the character that it denotes, or the cause why it denotes none. -/
structure Piece where
  octets : Octets
  content : Except DecodeCause Char

/-! ### Lenient reading -/

/-- The character that stands for octets that denote nothing. -/
def replacementCharacter : Char := Char.ofNat 0xFFFD

/-- The character that a lenient reader sees for a piece. -/
def Piece.lenientChar (p : Piece) : Char :=
  p.content.toOption.getD replacementCharacter

/-- The text that a lenient reader sees. -/
def lenientText (pieces : List Piece) : List Char :=
  pieces.map Piece.lenientChar

/-! ### Strict reading -/

/-- Octets that denote nothing, at a position counted in octets. -/
structure DecodeFault where
  position : Nat
  octets : Octets
  cause : DecodeCause
  deriving DecidableEq, Repr

/-- The first piece that denotes nothing, where the pieces begin at `position`. -/
def firstFault? (position : Nat) : List Piece → Option DecodeFault
  | [] => none
  | p :: rest =>
    match p.content with
    | .error cause => some ⟨position, p.octets, cause⟩
    | .ok _ => firstFault? (position + p.octets.length) rest

/-- The text that a strict reader sees. -/
def strictText (position : Nat) (pieces : List Piece) : Except DecodeFault (List Char) :=
  match firstFault? position pieces with
  | some fault => .error fault
  | none => .ok (lenientText pieces)

theorem strictText_eq_lenientText {position : Nat} {pieces : List Piece} {text : List Char}
    (h : strictText position pieces = .ok text) : text = lenientText pieces := by
  simp only [strictText] at h
  split at h
  · cases h
  · cases h
    rfl

end LocalisedEnum
