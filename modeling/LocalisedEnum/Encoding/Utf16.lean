import LocalisedEnum.Encoding.Piece

/-!
**UTF-16.**

Two octets make a unit, in either order.  A unit is a character by itself unless it lies among the
surrogates, of which a high one and a low one behind it make a character together.

Main definitions:

* `OctetOrder` — which octet of a unit comes first;
* `utf16Pieces` — the pieces of octets;
* `utf16Octets` — the octets of a character.

Main results:

* `flatMap_utf16Pieces` — the pieces make up the octets: nothing is lost.
-/

set_option autoImplicit false
set_option relaxedAutoImplicit false

namespace LocalisedEnum

/-! ### Units -/

/-- Which octet of a unit comes first: the low one or the high one. -/
inductive OctetOrder where
  | lowFirst
  | highFirst
  deriving DecidableEq, Repr

/-- The unit that two octets make. -/
def OctetOrder.unit : OctetOrder → UInt8 → UInt8 → Nat
  | lowFirst, a, b => b.toNat * 0x100 + a.toNat
  | highFirst, a, b => a.toNat * 0x100 + b.toNat

/-- A unit that begins a pair. -/
def isHighSurrogate (unit : Nat) : Bool :=
  0xD800 ≤ unit && unit < 0xDC00

/-- A unit that ends a pair. -/
def isLowSurrogate (unit : Nat) : Bool :=
  0xDC00 ≤ unit && unit < 0xE000

/-- The character of a pair. -/
def pairedChar (high low : Nat) : Char :=
  Char.ofNat (0x10000 + (high - 0xD800) * 0x400 + (low - 0xDC00))

/-! ### Decoding -/

/-- The pieces of octets in an order. -/
def utf16Pieces (order : OctetOrder) : Octets → List Piece
  | [] => []
  | [a] => [⟨[a], .error .truncated⟩]
  | a :: b :: rest =>
    let unit := order.unit a b
    if isHighSurrogate unit then
      match rest with
      | [] => [⟨[a, b], .error .unexpectedEnd⟩]
      | [c] => [⟨[a, b, c], .error .unexpectedEnd⟩]
      | c :: d :: rest =>
        if isLowSurrogate (order.unit c d) then
          ⟨[a, b, c, d], .ok (pairedChar unit (order.unit c d))⟩ :: utf16Pieces order rest
        else ⟨[a, b], .error .illegalSurrogate⟩ :: utf16Pieces order (c :: d :: rest)
    else if isLowSurrogate unit then ⟨[a, b], .error .illegalUnit⟩ :: utf16Pieces order rest
    else ⟨[a, b], .ok (Char.ofNat unit)⟩ :: utf16Pieces order rest

theorem flatMap_utf16Pieces (order : OctetOrder) (octets : Octets) :
    (utf16Pieces order octets).flatMap (·.octets) = octets := by
  fun_induction utf16Pieces order octets <;> simp_all

/-! ### Encoding -/

/-- The octets of a unit, the low one first. -/
def unitOctets (unit : Nat) : Octets :=
  [.ofNat (unit % 0x100), .ofNat (unit / 0x100)]

/-- The octets of a character, the low one of each unit first. -/
def utf16Octets (c : Char) : Octets :=
  let n := c.toNat
  if n < 0x10000 then unitOctets n
  else
    unitOctets (0xD800 + (n - 0x10000) / 0x400) ++ unitOctets (0xDC00 + (n - 0x10000) % 0x400)

end LocalisedEnum
