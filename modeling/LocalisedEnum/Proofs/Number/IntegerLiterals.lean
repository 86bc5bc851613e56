import LocalisedEnum.Proofs.Declaration.Unplaced
import Mathlib.Data.Nat.Digits.Defs

/-!
**Integers as they are written.**

An integer is written in one of three radices: the mark of the radix, its digits, and a suffix of
letters.  Every letter may be a capital, and underscores may stand anywhere behind the first digit.

The letters have several meanings.  Those that end a real number, and the one in front of an
exponent, are digits in radix sixteen, and so is the letter that marks radix two.  They are told
apart because the mark of a radix is looked for before anything else, and because the letters of a
suffix are digits in no radix.

Main definitions:

* `Spelling` — a text in any letter case, with underscores in it;
* `digitChars`, `digitsValue` — digits as characters, and what they denote;
* `Radix`, `IntegerLiteral` — **a natural number as it is written**, with `IntegerLiteral.value`;
* `ReadAsInteger` — a text is one token, and denotes an integer.

Main results:

* `readNatural?_digitChars` — positional notation is read in every radix up to sixteen;
* `IntegerLiteral.read?_chars` — a literal is an integer, and no real number;
* `exists_integerLiteral` — every number can be written in every radix;
* `integerLiterals_denote` — **integer literals denote their values**.
-/

set_option autoImplicit false
set_option relaxedAutoImplicit false

namespace LocalisedEnum

/-! ### Letter case and underscores -/

/-- **A text in any letter case, with underscores in it.** -/
inductive Spelling : List Char → List Char → Prop
  | nil : Spelling [] []
  | letter {c d : Char} {cs text : List Char} (hd : d.toLower = c) (h : Spelling cs text) :
      Spelling (c :: cs) (d :: text)
  | underscore {cs text : List Char} (h : Spelling cs text) : Spelling cs ('_' :: text)

/-- A character is a capital, or in lower case already. -/
theorem capital_or_toLower (c : Char) : ('A' ≤ c ∧ c ≤ 'Z') ∨ c.toLower = c := by
  by_cases h : 'A' ≤ c ∧ c ≤ 'Z'
  · exact .inl h
  · exact .inr (dif_neg h)

theorem forall_capital {P : Char → Prop} (h : ∀ n : Fin 26, P (Char.ofNat (65 + n))) {c : Char}
    (hc : 'A' ≤ c ∧ c ≤ 'Z') : P c := by
  have hlow : 65 ≤ c.toNat := hc.1
  have hhigh : c.toNat ≤ 90 := hc.2
  have hletter := h ⟨c.toNat - 65, by omega⟩
  rwa [Nat.add_sub_cancel' hlow, Char.ofNat_toNat] at hletter

theorem lowerAscii_eq_toLower (c : Char) : lowerAscii c = c.toLower := by
  by_cases h : 'A' ≤ c ∧ c ≤ 'Z'
  · exact forall_capital (P := fun c => lowerAscii c = c.toLower) (by decide) h
  · have hlower : c.toLower = c := dif_neg h
    rw [lowerAscii, if_neg (by simpa using h), hlower]

/-- A digit has no other letter case. -/
theorem eq_of_toLower_eq_digit {c d : Char} (hd : d.toLower = c) (hc : '0' ≤ c ∧ c ≤ '9') :
    d = c := by
  rcases capital_or_toLower d with hcapital | hlower
  · have hletter : '9' < d.toLower :=
      forall_capital (P := fun d => '9' < d.toLower) (by decide) hcapital
    rw [hd] at hletter
    exact absurd hc.2 (Nat.not_le.2 hletter)
  · rw [← hd, hlower]

/-- A character of a numeral in lower case. -/
structure NumeralChar (c : Char) : Prop where
  lower : c.toLower = c
  underscore : c ≠ '_'
  part : isNumberPart c = true

namespace Spelling

variable {cs text : List Char}

/-- A numeral in lower case is a spelling of itself. -/
theorem self (hcs : ∀ c ∈ cs, NumeralChar c) : Spelling cs cs := by
  induction cs with
  | nil => exact .nil
  | cons c cs ih =>
      obtain ⟨hc, hcs⟩ := List.forall_mem_cons.1 hcs
      exact .letter hc.lower (ih hcs)

/-- A numeral is what is left in lower case when the underscores are taken out of a spelling. -/
theorem map_filter (h : Spelling cs text) (hcs : ∀ c ∈ cs, NumeralChar c) :
    (text.filter (· != '_')).map lowerAscii = cs := by
  induction h with
  | nil => rfl
  | @letter c d cs text hd _ ih =>
      obtain ⟨hc, hcs⟩ := List.forall_mem_cons.1 hcs
      have hunderscore : d ≠ '_' := by
        rintro rfl
        exact hc.underscore hd.symm
      rw [List.filter_cons_of_pos (by simpa using hunderscore), List.map_cons,
        lowerAscii_eq_toLower, hd, ih hcs]
  | underscore _ ih => rw [List.filter_cons_of_neg (by simp), ih hcs]

theorem isNumberPart (h : Spelling cs text) (hcs : ∀ c ∈ cs, NumeralChar c) :
    ∀ d ∈ text, LocalisedEnum.isNumberPart d = true := by
  induction h with
  | nil => exact fun d hd => absurd hd List.not_mem_nil
  | @letter c d cs text hd _ ih =>
      obtain ⟨hc, hcs⟩ := List.forall_mem_cons.1 hcs
      refine List.forall_mem_cons.2 ⟨?_, ih hcs⟩
      -- a capital is a word character whatever it becomes in lower case
      rcases capital_or_toLower d with hcapital | hlower
      · have hstart : isWordStart d = true := by simp [isWordStart, hcapital]
        rw [LocalisedEnum.isNumberPart, isWord_of_isWordStart hstart, Bool.true_or]
      · rw [← hlower, hd]
        exact hc.part
  | underscore _ ih => exact List.forall_mem_cons.2 ⟨rfl, ih hcs⟩

/-- A digit at the front stays there if no underscore is put in front of it. -/
theorem exists_cons {c : Char} (h : Spelling (c :: cs) text) (hc : '0' ≤ c ∧ c ≤ '9')
    (hhead : text.head? ≠ some '_') : ∃ rest, text = c :: rest := by
  cases h with
  | letter hd _ => exact ⟨_, by rw [eq_of_toLower_eq_digit hd hc]⟩
  | underscore _ => exact absurd rfl hhead

end Spelling

/-! ### Positional notation -/

/-- Digits as characters, letters in lower case. -/
def digitChars {base : Nat} (ds : List (Fin base)) : List Char :=
  ds.map fun d => d.val.digitChar

/-- The number that digits denote, the most significant one first. -/
def digitsValue {base : Nat} (ds : List (Fin base)) : Nat :=
  Nat.ofDigits base (ds.map Fin.val).reverse

/-- The character of a digit is in no suffix, and no blank. -/
structure DigitChar (d : Nat) (c : Char) : Prop extends NumeralChar c where
  value : (digitValue? c).or (letterValue? c) = some d
  suffix : isIntegerSuffix c = false
  blank : isNumeralBlank c = false

theorem digitChar_of_lt {d : Nat} (h : d < 16) : DigitChar d d.digitChar := by
  -- the letters are digits like the others here; none of them is a letter of a suffix
  have hall : ∀ d : Fin 16, DigitChar d d.val.digitChar := by
    intro d
    refine ⟨⟨?_, ?_, ?_⟩, ?_, ?_, ?_⟩ <;> revert d <;> decide
  exact hall ⟨d, h⟩

theorem ofDigits_eq_natOfDigits (radix : Nat) (ds : List Nat) :
    ofDigits radix ds = Nat.ofDigits radix ds.reverse := by
  rw [Nat.ofDigits_eq_foldr, List.foldr_reverse, ofDigits]
  simp only [Nat.cast_id, Nat.add_comm, Nat.mul_comm]

section Digits

variable {base : Nat} (hbase : base ≤ 16) (ds : List (Fin base))
include hbase

theorem digitChar_of_mem {c : Char} (hc : c ∈ digitChars ds) : ∃ d, DigitChar d c := by
  obtain ⟨d, _, rfl⟩ := List.mem_map.1 hc
  exact ⟨d, digitChar_of_lt (Nat.lt_of_lt_of_le d.isLt hbase)⟩

theorem numeralChar_of_mem {c : Char} (hc : c ∈ digitChars ds) : NumeralChar c := by
  obtain ⟨d, hd⟩ := digitChar_of_mem hbase ds hc
  exact hd.toNumeralChar

theorem isNumeralBlank_of_mem : ∀ c ∈ digitChars ds, isNumeralBlank c = false := by
  intro c hc
  obtain ⟨d, hd⟩ := digitChar_of_mem hbase ds hc
  exact hd.blank

theorem digitValueIn?_digitChar (d : Fin base) :
    digitValueIn? base d.val.digitChar = some d.val := by
  rw [digitValueIn?, (digitChar_of_lt (Nat.lt_of_lt_of_le d.isLt hbase)).value, Option.filter_some,
    if_pos (decide_eq_true d.isLt)]

theorem mapM_digitChars : (digitChars ds).mapM (digitValueIn? base) = some (ds.map Fin.val) := by
  induction ds with
  | nil => rw [digitChars, List.map_nil, List.mapM_nil]; rfl
  | cons d ds ih =>
      rw [digitChars] at ih ⊢
      rw [List.map_cons, List.mapM_cons, digitValueIn?_digitChar hbase, ih]
      rfl

/-- **Positional notation is read** as the number that it denotes. -/
theorem readNatural?_digitChars (hne : ds ≠ []) :
    readNatural? base (digitChars ds) = some (digitsValue ds) := by
  have hchars : ¬ (digitChars ds).isEmpty := by simpa [digitChars] using hne
  rw [readNatural?, if_neg hchars, mapM_digitChars hbase, Option.map_some, ofDigits_eq_natOfDigits,
    digitsValue]

end Digits

/-- Every number has digits, and needs no zero in front of them unless it is zero. -/
theorem exists_digitsValue_eq {base : Nat} (hbase : 1 < base) (n : Nat) : ∃ ds : List (Fin base),
    ds ≠ [] ∧ ds.length ≤ max 1 (Nat.digits base n).length ∧ digitsValue ds = n := by
  rcases Nat.eq_zero_or_pos n with rfl | hn
  · refine ⟨[⟨0, by omega⟩], List.cons_ne_nil _ _, Nat.le_max_left _ _, ?_⟩
    rw [digitsValue, List.map_singleton, List.reverse_singleton, Nat.ofDigits_singleton]
  · have hlt : ∀ d ∈ (Nat.digits base n).reverse, d < base := fun d hd =>
      Nat.digits_lt_base hbase (List.mem_reverse.1 hd)
    have hval : (((Nat.digits base n).reverse.pmap Fin.mk hlt).map Fin.val) =
        (Nat.digits base n).reverse := by
      rw [List.map_pmap]
      exact List.pmap_eq_self.2 fun _ _ => rfl
    refine ⟨(Nat.digits base n).reverse.pmap Fin.mk hlt, ?_, ?_, ?_⟩
    · rw [Ne, List.pmap_eq_nil_iff, List.reverse_eq_nil_iff, Nat.digits_eq_nil_iff_eq_zero]
      exact Nat.pos_iff_ne_zero.1 hn
    · rw [List.length_pmap, List.length_reverse]
      exact Nat.le_max_right _ _
    · rw [digitsValue, hval, List.reverse_reverse, Nat.ofDigits_digits]

/-- The ASCII digits are the characters of decimal digits. -/
theorem exists_digitChars {cs : List Char} (h : ∀ c ∈ cs, '0' ≤ c ∧ c ≤ '9') :
    ∃ ds : List (Fin 10), digitChars ds = cs := by
  have hall : ∀ d : Fin 10, d.val.digitChar = Char.ofNat (48 + d) := by decide
  induction cs with
  | nil => exact ⟨[], rfl⟩
  | cons c cs ih =>
      obtain ⟨⟨hlow, hhigh⟩, hcs⟩ := List.forall_mem_cons.1 h
      have hlow : 48 ≤ c.toNat := hlow
      have hhigh : c.toNat ≤ 57 := hhigh
      obtain ⟨ds, rfl⟩ := ih hcs
      refine ⟨⟨c.toNat - 48, by omega⟩ :: ds, ?_⟩
      rw [digitChars, List.map_cons, hall, Nat.add_sub_cancel' hlow, Char.ofNat_toNat]
      rfl

theorem ofDigitChars_digitChars (ds : List (Fin 10)) :
    Nat.ofDigitChars 10 (digitChars ds) 0 = digitsValue ds := by
  have hall : ∀ d : Fin 10, d.val.digitChar.toNat - '0'.toNat = d.val := by decide
  rw [digitsValue, ← ofDigits_eq_natOfDigits, ofDigits, Nat.ofDigitChars, digitChars,
    List.foldl_map, List.foldl_map]
  simp only [hall, Nat.mul_comm]

/-! ### Suffixes -/

theorem dropEndWhile_append {p : Char → Bool} {cs suffix : List Char} (hcs : ∀ c ∈ cs, p c = false)
    (hsuffix : ∀ c ∈ suffix, p c = true) : dropEndWhile p (cs ++ suffix) = cs := by
  have hreverse : cs.reverse.dropWhile p = cs.reverse := by
    cases h : cs.reverse with
    | nil => rfl
    | cons c rest =>
        have hc : c ∈ cs := List.mem_reverse.1 (h ▸ List.mem_cons_self)
        rw [List.dropWhile_cons_of_neg (by simp [hcs c hc])]
  rw [dropEndWhile, List.reverse_append,
    List.dropWhile_append_of_pos fun c hc => hsuffix c (List.mem_reverse.1 hc), hreverse,
    List.reverse_reverse]

theorem dropEndWhile_of_forall {p : Char → Bool} {cs : List Char} (hcs : ∀ c ∈ cs, p c = false) :
    dropEndWhile p cs = cs := by
  have h : dropEndWhile p (cs ++ []) = cs :=
    dropEndWhile_append hcs fun _ hc => absurd hc List.not_mem_nil
  rwa [List.append_nil] at h

/-- The suffix of an integer in lower case. -/
def IntegerSuffix (suffix : List Char) : Prop :=
  ∀ c ∈ suffix, c = 'u' ∨ c = 'l'

/-- A character of a decimal integer: it announces no radix and belongs to no real number. -/
structure DecimalChar (c : Char) : Prop where
  radix : c ≠ 'x' ∧ c ≠ 'b'
  point : c ≠ '.' ∧ c ≠ 'e'
  suffix : isRealSuffix c = false

namespace IntegerSuffix

variable {suffix : List Char} (h : IntegerSuffix suffix)
include h

theorem isIntegerSuffix : ∀ c ∈ suffix, LocalisedEnum.isIntegerSuffix c = true := by
  intro c hc
  rcases h c hc with rfl | rfl <;> rfl

theorem numeralChar : ∀ c ∈ suffix, NumeralChar c := by
  intro c hc
  rcases h c hc with rfl | rfl <;> exact ⟨rfl, by decide, rfl⟩

theorem decimalChar : ∀ c ∈ suffix, DecimalChar c := by
  intro c hc
  rcases h c hc with rfl | rfl <;> exact ⟨by decide, by decide, rfl⟩

/-- No digit is taken away with a suffix. -/
theorem dropEndWhile_digitChars {base : Nat} (hbase : base ≤ 16) (ds : List (Fin base)) :
    dropEndWhile LocalisedEnum.isIntegerSuffix (digitChars ds ++ suffix) = digitChars ds := by
  refine dropEndWhile_append (fun c hc => ?_) h.isIntegerSuffix
  obtain ⟨d, hd⟩ := digitChar_of_mem hbase ds hc
  exact hd.suffix

end IntegerSuffix

/-- The character of a decimal digit is one of ASCII. -/
structure DecimalDigit (c : Char) : Prop extends DecimalChar c where
  ascii : '0' ≤ c ∧ c ≤ '9'
  sign : c ≠ '-' ∧ c ≠ '+'

theorem decimalDigit_digitChar (d : Fin 10) : DecimalDigit d.val.digitChar := by
  refine ⟨⟨?_, ?_, ?_⟩, ?_, ?_⟩ <;> revert d <;> decide

theorem decimalDigit_of_mem {ds : List (Fin 10)} {c : Char} (hc : c ∈ digitChars ds) :
    DecimalDigit c := by
  obtain ⟨d, _, rfl⟩ := List.mem_map.1 hc
  exact decimalDigit_digitChar d

/-! ### Reading numerals -/

section Reading

variable {text suffix : List Char}

/-- **Behind the mark of a radix** every digit of the radix is one, whatever else its character
stands for. -/
theorem read?_of_announced {base : Nat} (hbase : base ≤ 16) {ds : List (Fin base)} (hne : ds ≠ [])
    (hsuffix : IntegerSuffix suffix)
    (htext : announcedRadix? ((text.filter (· != '_')).map lowerAscii) =
      some (base, digitChars ds ++ suffix)) :
    Numeral.read? text = some (.integer (digitsValue ds)) := by
  have hblanks : dropNumeralBlanksAfter (digitChars ds) = digitChars ds :=
    dropEndWhile_of_forall (isNumeralBlank_of_mem hbase ds)
  rw [Numeral.read?, htext]
  simp only [hsuffix.dropEndWhile_digitChars hbase ds, hblanks,
    readNatural?_digitChars hbase ds hne]
  rfl

theorem announcedRadix?_eq_none {cs : List Char} (h : ∀ c ∈ cs, DecimalChar c) :
    announcedRadix? cs = none := by
  rw [announcedRadix?.eq_def]
  split
  · exact absurd rfl (h 'x' (List.mem_cons_of_mem _ List.mem_cons_self)).radix.1
  · exact absurd rfl (h 'b' (List.mem_cons_of_mem _ List.mem_cons_self)).radix.2
  · rfl

theorem looksReal_eq_false {cs : List Char} (h : ∀ c ∈ cs, DecimalChar c) :
    looksReal cs = false := by
  have hpoint : cs.any (fun c => c == '.' || c == 'e') = false := by
    rw [List.any_eq_false]
    intro c hc
    simp [(h c hc).point]
  have hlast : cs.getLast?.any isRealSuffix = false := by
    cases hc : cs.getLast? with
    | none => rfl
    | some c => exact (h c (List.mem_of_getLast? hc)).suffix
  rw [looksReal, hpoint, hlast]
  rfl

theorem readInteger?_digitChars {ds : List (Fin 10)} (hne : ds ≠ [])
    (hshort : ds.length ≤ decimalLimit) :
    readInteger? (digitChars ds) = some (digitsValue ds : Int) := by
  obtain ⟨d, rest, hds⟩ := List.exists_cons_of_ne_nil hne
  have hblank : ∀ c ∈ digitChars ds, isNumeralBlank c = false :=
    isNumeralBlank_of_mem (by decide) ds
  have hcons : digitChars ds = d.val.digitChar :: digitChars rest := by rw [hds]; rfl
  have htrim : trimNumeral (digitChars ds) = digitChars ds := by
    have hfront : (digitChars ds).dropWhile isNumeralBlank = digitChars ds := by
      rw [hcons, List.dropWhile_cons_of_neg (by simp [hblank _ (hcons ▸ List.mem_cons_self)])]
    rw [trimNumeral, hfront, dropNumeralBlanksAfter, dropEndWhile_of_forall hblank]
  have hsign : takeSign (digitChars ds) = (false, digitChars ds) := by
    obtain ⟨hminus, hplus⟩ := (decimalDigit_digitChar d).sign
    rw [hcons, takeSign]
    · exact fun rest h => hminus (List.cons.inj h).1
    · exact fun rest h => hplus (List.cons.inj h).1
  have hlength : (digitChars ds).length = ds.length := List.length_map _
  rw [readInteger?, htrim, hsign]
  simp only [hlength, if_neg (Nat.not_lt.2 hshort),
    readNatural?_digitChars (by decide : 10 ≤ 16) ds hne, Option.map_some]
  rfl

/-- **Without a mark** decimal digits are an integer if there are few enough of them. -/
theorem read?_of_decimal {ds : List (Fin 10)} (hne : ds ≠ []) (hshort : ds.length ≤ decimalLimit)
    (hsuffix : IntegerSuffix suffix)
    (htext : (text.filter (· != '_')).map lowerAscii = digitChars ds ++ suffix) :
    Numeral.read? text = some (.integer (digitsValue ds)) := by
  have hdecimal : ∀ c ∈ digitChars ds ++ suffix, DecimalChar c := fun c hc =>
    (List.mem_append.1 hc).elim (fun hc => (decimalDigit_of_mem hc).toDecimalChar)
      (hsuffix.decimalChar c)
  have hdigits := hsuffix.dropEndWhile_digitChars (by decide) ds
  rw [Numeral.read?, htext, announcedRadix?_eq_none hdecimal, looksReal_eq_false hdecimal]
  simp only [Bool.false_eq_true, if_false, hdigits, readInteger?_digitChars hne hshort,
    Option.map_some]

end Reading

/-! ### Literals -/

/-- The radices that integers are written in. -/
inductive Radix where
  | decimal
  | hexadecimal
  | binary
  deriving DecidableEq, Repr

namespace Radix

/-- The number of digits of a radix. -/
def base : Radix → Nat
  | decimal => 10
  | hexadecimal => 16
  | binary => 2

/-- What stands in front of the digits, in lower case. -/
def mark : Radix → List Char
  | decimal => []
  | hexadecimal => ['0', 'x']
  | binary => ['0', 'b']

theorem base_le (r : Radix) : r.base ≤ 16 := by
  cases r <;> decide

theorem one_lt_base (r : Radix) : 1 < r.base := by
  cases r <;> decide

theorem numeralChar_mark (r : Radix) : ∀ c ∈ r.mark, NumeralChar c := by
  have hzero : NumeralChar '0' := ⟨rfl, by decide, rfl⟩
  cases r with
  | decimal => exact fun _ hc => absurd hc List.not_mem_nil
  | hexadecimal =>
      exact List.forall_mem_cons.2 ⟨hzero, List.forall_mem_singleton.2 ⟨rfl, by decide, rfl⟩⟩
  | binary =>
      exact List.forall_mem_cons.2 ⟨hzero, List.forall_mem_singleton.2 ⟨rfl, by decide, rfl⟩⟩

end Radix

/-- **A natural number as it is written**: the mark of a radix, digits, of which the first ones may
be zeros, and a suffix; in any letter case, and with underscores anywhere but in front.  Only the
digits of decimals are bounded in number. -/
structure IntegerLiteral where
  radix : Radix
  digits : List (Fin radix.base)
  digits_ne_nil : digits ≠ []
  short : radix = .decimal → digits.length ≤ decimalLimit
  suffix : List Char
  isSuffix : IntegerSuffix suffix
  chars : List Char
  spelling : Spelling (radix.mark ++ (digitChars digits ++ suffix)) chars
  head : chars.head? ≠ some '_'

namespace IntegerLiteral

variable (l : IntegerLiteral)

/-- The number. -/
def value : Nat :=
  digitsValue l.digits

theorem numeralChar : ∀ c ∈ l.radix.mark ++ (digitChars l.digits ++ l.suffix), NumeralChar c := by
  intro c hc
  rcases List.mem_append.1 hc with hc | hc
  · exact l.radix.numeralChar_mark c hc
  · rcases List.mem_append.1 hc with hc | hc
    · exact numeralChar_of_mem l.radix.base_le l.digits hc
    · exact l.isSuffix.numeralChar c hc

/-- **A literal is an integer**, and no real number. -/
theorem read?_chars : Numeral.read? l.chars = some (.integer l.value) := by
  have hplain := l.spelling.map_filter l.numeralChar
  -- what the digits are depends on the radix, so the literal is taken apart before the cases are
  obtain ⟨radix, digits, hne, hshort, suffix, hsuffix, chars, hspelling, hhead⟩ := l
  cases radix with
  | decimal => exact read?_of_decimal hne (hshort rfl) hsuffix hplain
  | hexadecimal =>
      refine read?_of_announced (Radix.base_le .hexadecimal) hne hsuffix ?_
      rw [hplain]
      rfl
  | binary =>
      refine read?_of_announced (Radix.base_le .binary) hne hsuffix ?_
      rw [hplain]
      rfl

/-- A literal begins with a decimal digit. -/
theorem exists_head : ∃ c cs, l.chars = c :: cs ∧ ('0' ≤ c ∧ c ≤ '9') := by
  obtain ⟨radix, digits, hne, hshort, suffix, hsuffix, chars, hspelling, hhead⟩ := l
  cases radix with
  | decimal =>
      obtain ⟨d, ds, rfl⟩ := List.exists_cons_of_ne_nil hne
      have hdigit := (decimalDigit_digitChar d).ascii
      obtain ⟨rest, hrest⟩ := hspelling.exists_cons hdigit hhead
      exact ⟨_, rest, hrest, hdigit⟩
  | hexadecimal =>
      obtain ⟨rest, hrest⟩ := hspelling.exists_cons (by decide) hhead
      exact ⟨_, rest, hrest, by decide⟩
  | binary =>
      obtain ⟨rest, hrest⟩ := hspelling.exists_cons (by decide) hhead
      exact ⟨_, rest, hrest, by decide⟩

/-- **A literal is one token.** -/
theorem stands {rest : List Char} (hrest : ∀ x ∈ rest.head?, isNumberPart x = false) :
    Stands .number l.chars rest := by
  obtain ⟨c, cs, hchars, hc⟩ := l.exists_head
  have hparts := l.spelling.isNumberPart l.numeralChar
  rw [hchars] at hparts ⊢
  exact .number hc (fun x hx => hparts x (List.mem_cons_of_mem _ hx)) hrest

theorem stands_alone : Stands .number l.chars [] :=
  l.stands fun _ hx => absurd hx (Option.not_mem_none _)

end IntegerLiteral

/-- The literal of some digits in lower case, without underscores and without a suffix. -/
def IntegerLiteral.plain (r : Radix) (ds : List (Fin r.base)) (hne : ds ≠ [])
    (hshort : r = .decimal → ds.length ≤ decimalLimit) : IntegerLiteral :=
  have hchars : ∀ c ∈ r.mark ++ digitChars ds, NumeralChar c := fun c hc =>
    (List.mem_append.1 hc).elim (r.numeralChar_mark c) (numeralChar_of_mem r.base_le ds)
  { radix := r
    digits := ds
    digits_ne_nil := hne
    short := hshort
    suffix := []
    isSuffix := fun _ hc => absurd hc List.not_mem_nil
    chars := r.mark ++ digitChars ds
    spelling := by
      rw [List.append_nil]
      exact .self hchars
    head := fun h => (hchars '_' (List.mem_of_head? h)).underscore rfl }

/-- **Every number can be written** in every radix, but for decimals with too many digits. -/
theorem exists_integerLiteral (n : Nat) (r : Radix)
    (hshort : r = .decimal → (Nat.digits 10 n).length ≤ decimalLimit) :
    ∃ l : IntegerLiteral, l.radix = r ∧ l.value = n := by
  obtain ⟨ds, hne, hlength, hvalue⟩ := exists_digitsValue_eq r.one_lt_base n
  refine ⟨.plain r ds hne ?_, rfl, hvalue⟩
  rintro rfl
  exact hlength.trans (Nat.max_le.2 ⟨by decide, hshort rfl⟩)

/-- Decimal digits alone are a literal. -/
theorem exists_literal_of_decimal {cs : List Char} (hne : cs ≠ [])
    (hcs : ∀ c ∈ cs, '0' ≤ c ∧ c ≤ '9') (hshort : cs.length ≤ decimalLimit) :
    ∃ l : IntegerLiteral, l.chars = cs ∧ l.value = Nat.ofDigitChars 10 cs 0 := by
  obtain ⟨ds, rfl⟩ := exists_digitChars hcs
  have hds : ds ≠ [] := by
    rintro rfl
    exact hne rfl
  refine ⟨.plain .decimal ds hds fun _ => ?_, rfl, (ofDigitChars_digitChars ds).symm⟩
  rwa [digitChars, List.length_map] at hshort

/-! ### Literals as expressions -/

/-- What begins with a digit is no word. -/
theorem ne_of_isIdentifier {text word : String}
    (htext : ∃ c cs, text.toList = c :: cs ∧ ('0' ≤ c ∧ c ≤ '9'))
    (hword : isIdentifier word = true) : text ≠ word := by
  rintro rfl
  obtain ⟨c, cs, hcs, hc⟩ := htext
  rw [isIdentifier, hcs, Bool.and_eq_true] at hword
  have hdigit : isDigit c = true := isDigit_of_ascii hc
  rw [isDigit_of_isWordStart hword.1] at hdigit
  cases hdigit

section Evaluating

variable {text : String} {n : Numeral}

/-- The value of a numeral. -/
theorem evaluate_numeral (hhead : ∃ c cs, text.toList = c :: cs ∧ ('0' ≤ c ∧ c ≤ '9'))
    (hread : Numeral.read? text.toList = some n) :
    evaluate [.bare .number text] = .ok (.ofNumeral n) := by
  have hword : ∀ word, isIdentifier word = true → text ≠ word := fun _ => ne_of_isIdentifier hhead
  have htoken : evaluateToken (.bare .number text) = .ok (some (.ofNumeral n)) := by
    rw [evaluateToken, Token.bare_text, Token.bare_kind,
      show TokenKind.number.isStringLiteral = false from rfl, if_neg Bool.false_ne_true,
      if_neg (hword "null" (by decide)), if_neg (hword "true" (by decide)),
      if_neg (hword "false" (by decide)), if_pos rfl, hread]
    rfl
  change (evaluateToken (.bare .number text) >>= _) = _
  rw [htoken]
  rfl

/-- The value of a numeral behind a minus sign. -/
theorem evaluate_negated (hread : Numeral.read? text.toList = some n) :
    evaluate [.bare .operator "-", .bare .number text] = .ok (.ofNumeral n.neg) := by
  have hnegated : negatedNumeral? [.bare .operator "-", .bare .number text] =
      some (.ofNumeral n.neg) := by
    rw [negatedNumeral?, if_pos ⟨rfl, rfl⟩, Token.bare_text, hread]
    rfl
  change evaluateCompound [.bare .operator "-", .bare .number text] = _
  rw [evaluateCompound, hnegated]

end Evaluating

/-- The value of a text depends on its tokens without their places. -/
theorem evaluate_tokenise (cs : List Char) :
    evaluate (tokenise (String.ofList cs)) = evaluate (bareTokens cs) := by
  rw [bareTokens, evaluate_unplaced, tokenise, String.toList_ofList]

/-- **A text is read as an integer**: it is one token, in front of everything that does not go on
with it; and this token has a value, which is negated behind a minus sign, whatever white space is
between them. -/
structure ReadAsInteger (text : List Char) (n : Int) : Prop where
  whole : tokenise (String.ofList text) = [⟨.number, String.ofList text, 1, 1⟩]
  tokens : ∀ (p : Place) (rest : List Char), (∀ x ∈ rest.head?, isNumberPart x = false) →
    tokeniseFrom p (text ++ rest) =
      ⟨.number, String.ofList text, p.line, p.column⟩ :: tokeniseFrom (p.advance text) rest
  value : evaluate (tokenise (String.ofList text)) = .ok (.integer n)
  negated : ∀ gap : Blanks,
    evaluate (tokenise (String.ofList ('-' :: (gap.chars ++ text)))) = .ok (.integer (-n))

namespace IntegerLiteral

variable (l : IntegerLiteral)

theorem bareTokens_chars : bareTokens l.chars = [.bare .number (String.ofList l.chars)] := by
  have htokens := bareTokens_token l.stands_alone
  rwa [List.append_nil, bareTokens_nil] at htokens

/-- A minus sign ends in front of a literal, with or without white space between them. -/
theorem stands_minus (gap : Blanks) : Stands .operator ['-'] (gap.chars ++ l.chars) := by
  refine .operator (by decide) fun x hx => ?_
  cases hgap : gap.chars with
  | nil =>
      obtain ⟨c, cs, hchars, hc⟩ := l.exists_head
      rw [hgap, List.nil_append, hchars] at hx
      obtain rfl : c = x := Option.some.inj hx
      have hall : operatorChars.all (fun c => !isDigit c) = true := by decide
      refine extendsOperator_of_not_mem fun hmem => ?_
      have hdigit := List.all_eq_true.1 hall c hmem
      rw [isDigit_of_ascii hc] at hdigit
      cases hdigit
  | cons b bs =>
      rw [hgap] at hx
      obtain rfl : b = x := Option.some.inj hx
      exact goesOn_blank .operator ['-'] (gap.blank b (hgap ▸ List.mem_cons_self))

theorem readAsInteger : ReadAsInteger l.chars l.value := by
  have htokens : ∀ (p : Place) (rest : List Char), (∀ x ∈ rest.head?, isNumberPart x = false) →
      tokeniseFrom p (l.chars ++ rest) = ⟨.number, String.ofList l.chars, p.line, p.column⟩ ::
        tokeniseFrom (p.advance l.chars) rest := by
    intro p rest hrest
    have hstands := l.stands hrest
    exact tokeniseFrom_lexeme p l.chars hstands.ne_nil (lexeme_of_stands hstands)
  have hhead := l.exists_head
  have hread := l.read?_chars
  rw [← String.toList_ofList (l := l.chars)] at hhead hread
  refine ⟨?_, htokens, ?_, fun gap => ?_⟩
  · have h := htokens .start [] fun _ hx => absurd hx (Option.not_mem_none _)
    rw [List.append_nil, tokeniseFrom_nil] at h
    rwa [tokenise, String.toList_ofList]
  · rw [evaluate_tokenise, l.bareTokens_chars, evaluate_numeral hhead hread]
    rfl
  · rw [evaluate_tokenise, ← List.singleton_append, bareTokens_token (l.stands_minus gap),
      bareTokens_blank gap.blank, l.bareTokens_chars]
    exact evaluate_negated hread

end IntegerLiteral

/-- **Integer literals denote their values.**  Every natural number can be written in every radix,
as a decimal if it has few enough digits; and however it is written, in whichever letter case, with
whichever zeros, underscores and suffix, it is read as one token whose value is the number, and the
opposite number behind a minus sign. -/
theorem integerLiterals_denote (n : Nat) :
    (∀ r : Radix, (r = .decimal → (Nat.digits 10 n).length ≤ decimalLimit) →
        ∃ l : IntegerLiteral, l.radix = r ∧ l.value = n) ∧
      ∀ l : IntegerLiteral, l.value = n → ReadAsInteger l.chars n := by
  refine ⟨fun r hshort => exists_integerLiteral n r hshort, fun l hvalue => ?_⟩
  rw [← hvalue]
  exact l.readAsInteger

/-- A hexadecimal literal that begins with the letter that marks radix two, goes on with that of an
exponent and those of real numbers, and has capitals, an underscore and a suffix. -/
theorem integerLiterals_denote_letters : ReadAsInteger "0XbE_fdLu".toList 0xBEFD := by
  let literal : IntegerLiteral :=
    { radix := .hexadecimal
      digits := ([11, 14, 15, 13] : List (Fin 16))
      digits_ne_nil := List.cons_ne_nil _ _
      short := fun h => nomatch h
      suffix := ['l', 'u']
      isSuffix := by simp [IntegerSuffix]
      chars := "0XbE_fdLu".toList
      spelling := .letter rfl (.letter rfl (.letter rfl (.letter rfl (.underscore
        (.letter rfl (.letter rfl (.letter rfl (.letter rfl .nil))))))))
      head := by decide }
  exact (integerLiterals_denote 0xBEFD).2 literal (by decide)

end LocalisedEnum
