/-!
**Decimal digits of every script.**

Unicode lays out the decimal digits of a script as ten consecutive characters from zero to nine.  A
table of the zeros therefore determines both which characters are decimal digits and what each one
is worth.  Numbers in the source language and in naming templates may be written in any script.

Main definitions:

* `digitZeros` — the zeros;
* `digitValue?` — the worth of a decimal digit;
* `digitValueIn?` — the worth of a digit in a radix up to sixteen, letters counting from ten.
-/

set_option autoImplicit false
set_option relaxedAutoImplicit false

namespace LocalisedEnum

/-- The digit zero of each script, in increasing order. -/
def digitZeros : List Nat :=
  [
    0x30, 0x660, 0x6F0, 0x7C0, 0x966, 0x9E6, 0xA66, 0xAE6,
    0xB66, 0xBE6, 0xC66, 0xCE6, 0xD66, 0xDE6, 0xE50, 0xED0,
    0xF20, 0x1040, 0x1090, 0x17E0, 0x1810, 0x1946, 0x19D0, 0x1A80,
    0x1A90, 0x1B50, 0x1BB0, 0x1C40, 0x1C50, 0xA620, 0xA8D0, 0xA900,
    0xA9D0, 0xA9F0, 0xAA50, 0xABF0, 0xFF10, 0x104A0, 0x10D30, 0x11066,
    0x110F0, 0x11136, 0x111D0, 0x112F0, 0x11450, 0x114D0, 0x11650, 0x116C0,
    0x11730, 0x118E0, 0x11950, 0x11C50, 0x11D50, 0x11DA0, 0x16A60, 0x16AC0,
    0x16B50, 0x1D7CE, 0x1D7D8, 0x1D7E2, 0x1D7EC, 0x1D7F6, 0x1E140, 0x1E2F0,
    0x1E950, 0x1FBF0]

/-- The worth of a decimal digit of any script. -/
def digitValue? (c : Char) : Option Nat :=
  if c.toNat < 128 then
    if '0' ≤ c && c ≤ '9' then some (c.toNat - 48) else none
  else
    (digitZeros.find? fun start => start ≤ c.toNat && c.toNat < start + 10).map (c.toNat - ·)

/-- A decimal digit of any script. -/
def isDigit (c : Char) : Bool :=
  (digitValue? c).isSome

/-- The ASCII digits are decimal digits. -/
theorem isDigit_of_ascii {c : Char} (h : '0' ≤ c ∧ c ≤ '9') : isDigit c = true := by
  have hnat : c.toNat < 128 := Nat.lt_of_le_of_lt (Char.le_def.1 h.2) (by decide)
  simp [isDigit, digitValue?, hnat, h]

/-- A number is written in ASCII digits. -/
theorem ascii_of_mem_toDigits {n : Nat} {d : Char} (h : d ∈ Nat.toDigits 10 n) :
    '0' ≤ d ∧ d ≤ '9' := by
  have hdigit := Nat.isDigit_of_mem_toDigits (b := 10) (by decide) (by decide) h
  simpa [Char.isDigit, Char.le_def] using hdigit

/-- The worth of an ASCII letter used as a digit: `a` is ten. -/
def letterValue? (c : Char) : Option Nat :=
  if 'a' ≤ c && c ≤ 'z' then some (c.toNat - 87)
  else if 'A' ≤ c && c ≤ 'Z' then some (c.toNat - 55)
  else none

/-- The worth of a digit in the given radix, if it is a digit of that radix. -/
def digitValueIn? (radix : Nat) (c : Char) : Option Nat :=
  ((digitValue? c).or (letterValue? c)).filter (· < radix)

theorem digitValueIn?_lt {radix : Nat} {c : Char} {d : Nat}
    (h : digitValueIn? radix c = some d) : d < radix := by
  simpa using (Option.filter_eq_some_iff.1 h).2

end LocalisedEnum
