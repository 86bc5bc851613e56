import LocalisedEnum.Text.LowerCase
import Mathlib.Data.List.Infix

/-!
**Words in any letter case.**

Putting a text into lower case takes it through tables of all scripts, may make two characters out
of one, and looks around for some.  None of that shows where the lower case form is compared with a
plain word: a character that is not plain leaves one behind that is not plain either.  So the
comparison ignores the case of the letters from A to Z, and nothing else.

The letter k is not plain, because the sign for Kelvin becomes one.

Main definitions:

* `IsPlain` — the characters that come from themselves or from their capitals only;
* `inAnyCase` — a text without the case of the letters from A to Z.

Main results:

* `simpleLowerCase_of_le` — no character beyond the first 128 becomes a plain one;
* `lowerCase_eq_iff`, `suffix_lowerCase_iff` — **what is a plain word in lower case**, and what ends
  with one.
-/

set_option autoImplicit false
set_option relaxedAutoImplicit false

namespace LocalisedEnum

/-! ### Single characters -/

/-- A character that comes from itself or from its capital only. -/
def IsPlain (c : Char) : Prop :=
  c.toNat < 0x80 ∧ c ≠ 'k'

instance (c : Char) : Decidable (IsPlain c) :=
  inferInstanceAs (Decidable (_ ∧ _))

theorem toNat_ofNat_of_valid {n : Nat} (h : n.isValidChar) : (Char.ofNat n).toNat = n := by
  rw [Char.ofNat, dif_pos h]
  rfl

/-- The first run of the tables is that of the letters from A to Z, and the others lie beyond the
first 128 characters. -/
theorem exists_lowerCaseRuns_eq :
    ∃ runs, lowerCaseRuns = (0x41, 0x5A, 1, 32) :: runs ∧ ∀ run ∈ runs, 0x80 ≤ run.1 :=
  ⟨lowerCaseRuns.tail, rfl, by decide +kernel⟩

/-- Among the first 128 characters the tables know the letters from A to Z. -/
theorem simpleLowerCase_eq_ite {c : Char} (h : c.toNat < 0x80) :
    simpleLowerCase c =
      if 0x41 ≤ c.toNat ∧ c.toNat ≤ 0x5A then Char.ofNat (c.toNat + 32) else c := by
  obtain ⟨runs, hruns, hlarge⟩ := exists_lowerCaseRuns_eq
  have hfirst : (decide (0x41 ≤ c.toNat) && decide (c.toNat ≤ 0x5A) && (c.toNat - 0x41) % 1 == 0) =
      decide (0x41 ≤ c.toNat ∧ c.toNat ≤ 0x5A) := by
    rw [Nat.mod_one, Bool.decide_and, beq_self_eq_true, Bool.and_true]
  rw [simpleLowerCase, hruns, List.find?_cons, List.find?_eq_none.2 ?hbeyond]
  case hbeyond =>
    intro run hrun hfound
    simp only [Bool.and_eq_true, decide_eq_true_eq] at hfound
    exact absurd (h.trans_le (hlarge run hrun)) (Nat.not_lt.2 hfound.1.1)
  dsimp only
  rw [hfirst]
  by_cases hcapital : 0x41 ≤ c.toNat ∧ c.toNat ≤ 0x5A
  · rw [if_pos hcapital, decide_eq_true hcapital]
    rfl
  · rw [if_neg hcapital, decide_eq_false hcapital]

theorem simpleLowerCase_of_lt {c : Char} (h : c.toNat < 0x80) : simpleLowerCase c = c.toLower := by
  have hall : ∀ n < 0x80, (if 0x41 ≤ n ∧ n ≤ 0x5A then Char.ofNat (n + 32) else Char.ofNat n) =
      (Char.ofNat n).toLower := by
    decide +kernel
  rw [simpleLowerCase_eq_ite h]
  simpa using hall c.toNat h

/-- Beyond the letters from A to Z the tables lead to characters that are not plain. -/
theorem runs_not_plain : ∀ run ∈ lowerCaseRuns, run.2.1 < 0x80 ∨ run = (0x212A, 0x212A, 1, -8383) ∨
    0x80 ≤ run.1 + run.2.2.2 ∧ (run.2.1 + run.2.2.2 < 0xD800 ∨
      0xDFFF < run.1 + run.2.2.2 ∧ run.2.1 + run.2.2.2 < 0x110000) := by
  decide +kernel

/-- **No character beyond the first 128 becomes a plain one.** -/
theorem simpleLowerCase_of_le {c : Char} (h : 0x80 ≤ c.toNat) : ¬IsPlain (simpleLowerCase c) := by
  rw [simpleLowerCase]
  split
  · next first last step distance hfind =>
    have hrun := List.find?_some hfind
    simp only [Bool.and_eq_true, decide_eq_true_eq] at hrun
    obtain ⟨⟨hfirst, hlast⟩, _⟩ := hrun
    rcases runs_not_plain _ (List.mem_of_find?_eq_some hfind) with
      hsmall | hkelvin | ⟨hlarge, hvalid⟩
    · exact absurd (hlast.trans_lt hsmall) (Nat.not_lt.2 h)
    · obtain ⟨rfl, rfl, -, rfl⟩ : first = 0x212A ∧ last = 0x212A ∧ step = 1 ∧ distance = -8383 := by
        simpa using hkelvin
      rw [Nat.le_antisymm hlast hfirst]
      decide
    · dsimp only at hlarge hvalid
      have hchar : (c.toNat + distance).toNat.isValidChar := by
        simp only [Nat.isValidChar]
        omega
      rintro ⟨hplain, _⟩
      rw [toNat_ofNat_of_valid hchar] at hplain
      omega
  · exact fun hplain => absurd hplain.1 (Nat.not_lt.2 h)

theorem toLower_of_le {c : Char} (h : 0x80 ≤ c.toNat) : c.toLower = c := by
  refine dif_neg fun hcapital => ?_
  have hle : c.toNat ≤ 'Z'.toNat := hcapital.2
  exact absurd (h.trans hle) (by decide)

/-! ### Texts -/

/-- A text without the case of the letters from A to Z. -/
def inAnyCase (s : String) : List Char :=
  s.toList.map Char.toLower

/-- What becomes of the first character of a text: a plain one if it is plain, and otherwise
something that ends with a character that is not. -/
theorem lowerCaseAfter_cons (before : List Char) (c : Char) (rest : List Char) :
    c.toNat < 0x80 ∧
      lowerCaseAfter before (c :: rest) = c.toLower :: lowerCaseAfter (c :: before) rest ∨
    0x80 ≤ c.toNat ∧
    ∃ front last, ¬IsPlain last ∧
      lowerCaseAfter before (c :: rest) = front ++ last :: lowerCaseAfter (c :: before) rest := by
  rw [lowerCaseAfter]
  rcases Nat.lt_or_ge c.toNat 0x80 with h | h
  · refine .inl ⟨h, ?_⟩
    rw [if_neg (by omega), if_neg (by simp; omega), simpleLowerCase_of_lt h]
    rfl
  · refine .inr ⟨h, ?_⟩
    split
    · exact ⟨['i'], Char.ofNat 0x307, by decide, rfl⟩
    · split
      · exact ⟨[], Char.ofNat 0x3C2, by decide, rfl⟩
      · exact ⟨[], _, simpleLowerCase_of_le h, rfl⟩

section

variable {word : List Char} (hword : ∀ c ∈ word, IsPlain c)
include hword

theorem lowerCaseAfter_eq_iff (before text : List Char) :
    lowerCaseAfter before text = word ↔ text.map Char.toLower = word := by
  induction text generalizing before word with
  | nil => exact Iff.rfl
  | cons c rest ih =>
      rcases lowerCaseAfter_cons before c rest with ⟨_, h⟩ | ⟨hc, front, last, hlast, h⟩
      · rw [h, List.map_cons]
        cases word with
        | nil => simp
        | cons d word =>
            rw [List.cons.injEq, List.cons.injEq,
              ih (fun e he => hword e (List.mem_cons_of_mem _ he))]
      · refine iff_of_false ?_ ?_
        · rintro rfl
          exact hlast (hword last (by rw [h]; simp))
        · rintro rfl
          have hplain := hword c.toLower (by simp)
          rw [toLower_of_le hc] at hplain
          exact absurd hplain.1 (Nat.not_lt.2 hc)

/-- A word ends behind a character that is not in it. -/
theorem suffix_append_cons_iff {front rest : List Char} {last : Char} (hlast : ¬IsPlain last) :
    word <:+ front ++ last :: rest ↔ word <:+ rest := by
  have hall : last :: rest <:+ front ++ last :: rest := List.suffix_append ..
  refine ⟨fun h => ?_, fun h => (h.trans (List.suffix_cons last rest)).trans hall⟩
  rcases List.suffix_or_suffix_of_suffix h hall with hshort | hlong
  · rcases List.suffix_cons_iff.1 hshort with rfl | hshort
    · exact absurd (hword last List.mem_cons_self) hlast
    · exact hshort
  · exact absurd (hword last (hlong.subset List.mem_cons_self)) hlast

theorem suffix_lowerCaseAfter_iff (before text : List Char) :
    word <:+ lowerCaseAfter before text ↔ word <:+ text.map Char.toLower := by
  induction text generalizing before with
  | nil => exact Iff.rfl
  | cons c rest ih =>
      rcases lowerCaseAfter_cons before c rest with ⟨_, h⟩ | ⟨hc, front, last, hlast, h⟩
      · have hwhole : word = lowerCaseAfter before (c :: rest) ↔
            word = (c :: rest).map Char.toLower := by
          rw [eq_comm, lowerCaseAfter_eq_iff hword, eq_comm]
        rw [h, List.map_cons] at hwhole
        rw [h, List.map_cons, List.suffix_cons_iff, List.suffix_cons_iff, hwhole, ih]
      · have hc' : ¬IsPlain c.toLower := by
          rw [toLower_of_le hc]
          exact fun hplain => absurd hplain.1 (Nat.not_lt.2 hc)
        rw [h, suffix_append_cons_iff hword hlast, ih]
        exact (List.nil_append (c.toLower :: _) ▸ suffix_append_cons_iff hword hc').symm

end

/-- **What is a plain word in lower case**: what is that word but for the case of the letters from A
to Z. -/
theorem lowerCase_eq_iff {word : String} (hword : ∀ c ∈ word.toList, IsPlain c) {s : String} :
    lowerCase s = word ↔ inAnyCase s = word.toList := by
  rw [lowerCase, inAnyCase, ← lowerCaseAfter_eq_iff hword [], ← String.toList_inj,
    String.toList_ofList]

/-- **What ends with a plain word in lower case**: what ends with it but for the case of the letters
from A to Z. -/
theorem suffix_lowerCase_iff {word : String} (hword : ∀ c ∈ word.toList, IsPlain c) {s : String} :
    word.toList <:+ (lowerCase s).toList ↔ word.toList <:+ inAnyCase s := by
  rw [lowerCase, inAnyCase, String.toList_ofList, suffix_lowerCaseAfter_iff hword]

end LocalisedEnum
