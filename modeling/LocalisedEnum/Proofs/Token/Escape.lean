import LocalisedEnum.Declaration.Fault
import LocalisedEnum.Expression
import Mathlib.Algebra.Ring.Nat

/-!
**Escapes past the end of Unicode.**

Of the numeric escapes only the long one, with its eight digits, has room for a number that is no
code point; four digits are never too many.  A literal is decoded from left to right, and the first
such escape ends it.  Only regular literals have escapes: the other two forms, and literals with a
dollar sign, are never at fault.

Main definitions:

* `OverlongEscape` — the body of a regular literal has an escape past the end of Unicode;
* `OverlongLiteral` — a token that is such a literal.

Main results:

* `unescape_eq_error_iff` — **a body has no value** exactly when it has such an escape;
* `literalValue_eq_error_iff` — and a token exactly when it is such a literal.
-/

set_option autoImplicit false
set_option relaxedAutoImplicit false

namespace LocalisedEnum

/-! ### Numbers of code points -/

theorem hexNumber_lt (count : Nat) (cs : List Char) : hexNumber count cs < 16 ^ count := by
  have hdigits : ∀ (digits : List Char) (n : Nat),
      digits.foldl (fun n c => n * 16 + (hexValue? c).getD 0) n < (n + 1) * 16 ^ digits.length := by
    intro digits
    induction digits with
    | nil => intro n; simp
    | cons c digits ih =>
        intro n
        have hc : (hexValue? c).getD 0 < 16 := by
          cases hvalue : hexValue? c with
          | none => decide
          | some d =>
              rw [hexValue?] at hvalue
              split at hvalue
              · exact digitValueIn?_lt hvalue
              · cases hvalue
        calc digits.foldl (fun n c => n * 16 + (hexValue? c).getD 0) (n * 16 + (hexValue? c).getD 0)
            < (n * 16 + (hexValue? c).getD 0 + 1) * 16 ^ digits.length := ih _
          _ ≤ ((n + 1) * 16) * 16 ^ digits.length := Nat.mul_le_mul_right _ (by omega)
          _ = (n + 1) * 16 ^ (c :: digits).length := by
              rw [List.length_cons, Nat.pow_succ, Nat.mul_assoc, Nat.mul_comm 16]
  have hlength : (cs.take count).length ≤ count := List.length_take_le ..
  calc hexNumber count cs < (0 + 1) * 16 ^ (cs.take count).length := hdigits _ 0
    _ ≤ 16 ^ count := by
        rw [Nat.zero_add, Nat.one_mul]
        exact Nat.pow_le_pow_right (by decide) hlength

/-- The fault of a number that is no code point. -/
def overlongError (n : Nat) : EscapeError :=
  if n < 0x80000000 then .pastUnicode else .pastMachineInteger

theorem codePointOf_eq_error_iff {n : Nat} {e : EscapeError} :
    codePointOf n = .error e ↔ 0x10FFFF < n ∧ e = overlongError n := by
  have hnone : CodePoint.ofNat? n = none ↔ 0x10FFFF < n := by
    by_cases h : n.isValidChar
    · have hpoint : CodePoint.ofNat? n ≠ none := by
        rw [CodePoint.ofNat?, dif_pos h]
        exact Option.some_ne_none _
      simp only [Nat.isValidChar] at h
      exact iff_of_false hpoint (by omega)
    · rw [CodePoint.ofNat?, dif_neg h]
      simp only [Nat.isValidChar] at h
      split
      · next hrange =>
        simp only [reduceCtorEq, false_iff]
        omega
      · next hrange =>
        simp only [true_iff]
        omega
  rw [codePointOf]
  cases hp : CodePoint.ofNat? n with
  | some p =>
      rw [hp] at hnone
      simp only [reduceCtorEq, false_iff, Nat.not_lt] at hnone ⊢
      omega
  | none => simp [hnone.1 hp, overlongError, eq_comm]

theorem exists_codePointOf_iff {n : Nat} : (∃ p, codePointOf n = .ok p) ↔ n ≤ 0x10FFFF := by
  cases hp : codePointOf n with
  | error e =>
      have hnumber := (codePointOf_eq_error_iff.1 hp).1
      simp only [reduceCtorEq, exists_false, false_iff]
      omega
  | ok p =>
      refine iff_of_true ⟨p, rfl⟩ (Nat.le_of_not_lt fun hnumber => ?_)
      rw [codePointOf_eq_error_iff.2 ⟨hnumber, rfl⟩] at hp
      cases hp

/-- An escape with fewer digits than the long one names a code point. -/
theorem numericEscapeDigits?_eq_some {d : Char} {rest : List Char} {count : Nat}
    (h : numericEscapeDigits? d rest = some count) :
    count ≤ 4 ∨ d = 'U' ∧ count = 8 ∧ hexRun 8 rest = 8 := by
  simp only [numericEscapeDigits?] at h
  split at h
  · split at h <;> cases h
    exact Or.inl (Nat.le_refl _)
  · split at h
    · next hd =>
      split at h
      · next hrun =>
        cases h
        exact Or.inr ⟨hd, rfl, hrun⟩
      · cases h
    · split at h
      · split at h
        · cases h
        · next more hrun =>
          cases h
          have hbound : hexRun 4 rest ≤ 4 :=
            Nat.le_trans (List.takeWhile_sublist _).length_le (List.length_take_le ..)
          exact Or.inl (by omega)
      · cases h

/-! ### Bodies of literals -/

/-- **The body of a regular literal has an escape past the end of Unicode**, and the escapes in
front of it name code points. -/
inductive OverlongEscape (e : EscapeError) : List Char → Prop
  | here {rest : List Char} (hdigits : hexRun 8 rest = 8) (hnumber : 0x10FFFF < hexNumber 8 rest)
      (herror : e = overlongError (hexNumber 8 rest)) : OverlongEscape e ('\\' :: 'U' :: rest)
  | numeric {d : Char} {rest : List Char} {count : Nat}
      (hdigits : numericEscapeDigits? d rest = some count)
      (hnumber : hexNumber count rest ≤ 0x10FFFF) (hrest : OverlongEscape e (rest.drop count)) :
      OverlongEscape e ('\\' :: d :: rest)
  | simple {d : Char} {rest : List Char} (hdigits : numericEscapeDigits? d rest = none)
      (hrest : OverlongEscape e rest) : OverlongEscape e ('\\' :: d :: rest)
  | plain {c : Char} {rest : List Char} (hc : c ≠ '\\') (hrest : OverlongEscape e rest) :
      OverlongEscape e (c :: rest)

theorem overlongEscape_nil (e : EscapeError) : ¬ OverlongEscape e [] :=
  nofun

theorem overlongEscape_singleton (e : EscapeError) (c : Char) : ¬ OverlongEscape e [c] := by
  intro h
  cases h with
  | plain _ hrest => exact overlongEscape_nil e hrest

/-- An escape either is past the end of Unicode or goes with what comes behind it. -/
theorem overlongEscape_escape {e : EscapeError} {d : Char} {rest : List Char} :
    OverlongEscape e ('\\' :: d :: rest) ↔
      match numericEscapeDigits? d rest with
      | some count => codePointOf (hexNumber count rest) = .error e ∨
          hexNumber count rest ≤ 0x10FFFF ∧ OverlongEscape e (rest.drop count)
      | none => OverlongEscape e rest := by
  have hlong : ∀ more, hexRun 8 more = 8 → numericEscapeDigits? 'U' more = some 8 := by
    intro more hmore
    simp [numericEscapeDigits?, hmore]
  cases hcount : numericEscapeDigits? d rest with
  | none =>
      constructor
      · intro h
        cases h with
        | here hdigits _ _ =>
            rw [hlong _ hdigits] at hcount
            cases hcount
        | numeric hdigits _ _ =>
            rw [hdigits] at hcount
            cases hcount
        | simple _ hrest => exact hrest
        | plain hc _ => exact absurd rfl hc
      · exact .simple hcount
  | some count =>
      simp only [codePointOf_eq_error_iff]
      constructor
      · intro h
        cases h with
        | here hdigits hnumber herror =>
            rw [hlong _ hdigits] at hcount
            cases hcount
            exact Or.inl ⟨hnumber, herror⟩
        | numeric hdigits hnumber hrest =>
            rw [hdigits] at hcount
            cases hcount
            exact Or.inr ⟨hnumber, hrest⟩
        | simple hdigits _ =>
            rw [hdigits] at hcount
            cases hcount
        | plain hc _ => exact absurd rfl hc
      · rintro (⟨hnumber, herror⟩ | ⟨hnumber, hrest⟩)
        · rcases numericEscapeDigits?_eq_some hcount with hfew | ⟨rfl, rfl, hrun⟩
          · -- four digits are not enough for such a number
            have hbound := hexNumber_lt count rest
            have hpow : 16 ^ count ≤ 16 ^ 4 := Nat.pow_le_pow_right (by decide) hfew
            omega
          · exact .here hrun hnumber herror
        · exact .numeric hcount hnumber hrest

theorem overlongEscape_plain {e : EscapeError} {c : Char} {rest : List Char} (hc : c ≠ '\\') :
    OverlongEscape e (c :: rest) ↔ OverlongEscape e rest := by
  refine ⟨fun h => ?_, .plain hc⟩
  cases h with
  | here => exact absurd rfl hc
  | numeric => exact absurd rfl hc
  | simple => exact absurd rfl hc
  | plain _ hrest => exact hrest

/-- **A body has no value** exactly when it has an escape past the end of Unicode. -/
theorem unescape_eq_error_iff {e : EscapeError} {cs : List Char} :
    unescape cs = .error e ↔ OverlongEscape e cs := by
  fun_induction unescape cs with
  | case1 => simp [overlongEscape_nil]
  | case2 c => simp [overlongEscape_singleton]
  | case3 d rest count hcount ih =>
      rw [overlongEscape_escape, hcount, bind_eq_error]
      simp only [bind_pure_eq_error, ih]
      refine or_congr_right ⟨?_, ?_⟩
      · rintro ⟨p, hp, hrest⟩
        exact ⟨exists_codePointOf_iff.1 ⟨p, hp⟩, hrest⟩
      · rintro ⟨hnumber, hrest⟩
        obtain ⟨p, hp⟩ := exists_codePointOf_iff.2 hnumber
        exact ⟨p, hp, hrest⟩
  | case4 d rest hcount ih => rw [overlongEscape_escape, hcount, bind_pure_eq_error, ih]
  | case5 c d rest hc ih => rw [overlongEscape_plain hc, bind_pure_eq_error, ih]

/-! ### Literals -/

/-- **A regular literal with an escape past the end of Unicode.** -/
structure OverlongLiteral (e : EscapeError) (t : Token) : Prop where
  kind : t.kind = .string
  uninterpolated : t.text.toList.head? ≠ some '$'
  body : OverlongEscape e (inner 1 1 t.text.toList)

/-- **A token has no value** exactly when it is such a literal. -/
theorem literalValue_eq_error_iff {e : EscapeError} {t : Token} :
    t.literalValue = .error e ↔ OverlongLiteral e t := by
  rw [Token.literalValue]
  split
  · next hkind =>
    split
    · next hdollar =>
      exact iff_of_false (ok_ne_error _ _) fun h => h.uninterpolated (beq_iff_eq.1 hdollar)
    · next hdollar =>
      rw [map_eq_error, unescape_eq_error_iff]
      exact ⟨fun h => ⟨hkind, fun hhead => hdollar (beq_iff_eq.2 hhead), h⟩, fun h => h.body⟩
  · next hkind => exact iff_of_false (ok_ne_error _ _) fun h => by simp [h.kind] at hkind
  · next hkind => exact iff_of_false (ok_ne_error _ _) fun h => by simp [h.kind] at hkind
  · next hstring _ _ => exact iff_of_false (ok_ne_error _ _) fun h => hstring h.kind

end LocalisedEnum
