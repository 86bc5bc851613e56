import LocalisedEnum.Proofs.Declaration.Braces
import Mathlib.Data.List.Infix

/-!
**Depth of nesting.**

Where a statement, a header or an argument ends is found by counting brackets: it ends at the first
mark of some kind that stands outside all brackets.  Which brackets count, and which marks, differs
from one to the other.  What they have in common is a depth behind every token, and marks that are
exposed or not.

Main definitions:

* `depthBehind` — the depth behind some tokens;
* `Exposed` — a mark outside all brackets;
* `BalancedBy` — brackets that balance by their number.

Main results:

* `takeStatement_balanced` — a statement goes to the semicolon behind balanced brackets;
* `headerEnd_ok_iff` — the header of a type goes to the mark behind some tokens exactly if they come
  back to the depth at which they began and expose none;
* `memberHeader_balanced` — the header of a member goes to the mark behind balanced brackets;
* `splitArgumentsFrom_of_not_exposed` — an argument goes on as long as it exposes no comma.
-/

set_option autoImplicit false
set_option relaxedAutoImplicit false

namespace LocalisedEnum

variable {nesting : Token → Int} {texts : List String} {depth : Int}

/-! ### The depth behind some tokens -/

/-- The depth of nesting behind some tokens, counted from that in front of them. -/
def depthBehind (nesting : Token → Int) : List Token → Int
  | [] => 0
  | t :: ts => nesting t + depthBehind nesting ts

@[simp] theorem depthBehind_nil : depthBehind nesting [] = 0 := rfl

theorem depthBehind_cons (t : Token) (ts : List Token) :
    depthBehind nesting (t :: ts) = nesting t + depthBehind nesting ts := rfl

theorem depthBehind_append (ts us : List Token) :
    depthBehind nesting (ts ++ us) = depthBehind nesting ts + depthBehind nesting us := by
  induction ts with
  | nil => rw [List.nil_append, depthBehind_nil, Int.zero_add]
  | cons t ts ih => rw [List.cons_append, depthBehind_cons, depthBehind_cons, ih, Int.add_assoc]

theorem forall_prefix_append {P : List Token → Prop} {ts us : List Token} :
    (∀ front, front <+: ts ++ us → P front) ↔
      (∀ front, front <+: ts → P front) ∧ ∀ front, front <+: us → P (ts ++ front) := by
  induction ts generalizing P with
  | nil =>
      simp only [List.nil_append, List.prefix_nil, forall_eq, iff_and_self]
      exact fun h => h [] List.nil_prefix
  | cons t ts ih =>
      rw [List.cons_append, forall_prefix_cons, forall_prefix_cons, ih, and_assoc]
      rfl

/-- **Brackets that balance by their number**: nowhere are more closed than have been opened, and
none stays open. -/
def BalancedBy (nesting : Token → Int) (ts : List Token) : Prop :=
  (∀ front, front <+: ts → 0 ≤ depthBehind nesting front) ∧ depthBehind nesting ts = 0

instance (nesting : Token → Int) (ts : List Token) : Decidable (BalancedBy nesting ts) :=
  decidable_of_iff
    ((∀ front ∈ ts.inits, 0 ≤ depthBehind nesting front) ∧ depthBehind nesting ts = 0)
    (by simp only [BalancedBy, List.mem_inits])

theorem BalancedBy.append {ts us : List Token} (hts : BalancedBy nesting ts)
    (hus : BalancedBy nesting us) : BalancedBy nesting (ts ++ us) := by
  rw [BalancedBy, forall_prefix_append, depthBehind_append, hts.2, hus.2]
  refine ⟨⟨hts.1, fun front hfront => ?_⟩, rfl⟩
  rw [depthBehind_append, hts.2, Int.zero_add]
  exact hus.1 front hfront

/-- A token that is no bracket balances. -/
theorem balancedBy_singleton {t : Token} (ht : nesting t = 0) : BalancedBy nesting [t] := by
  rw [BalancedBy, forall_prefix_cons]
  simp [depthBehind, ht]

/-! ### Exposed marks -/

/-- **An exposed mark**: a token with one of the texts at depth zero, `depth` being the depth in
front of the tokens. -/
def Exposed (nesting : Token → Int) (texts : List String) (depth : Int) (ts : List Token) : Prop :=
  ∃ front t back, ts = front ++ t :: back ∧ t.text ∈ texts ∧ depth + depthBehind nesting front = 0

@[simp] theorem not_exposed_nil : ¬ Exposed nesting texts depth [] := by
  rintro ⟨front, t, back, heq, -⟩
  exact absurd heq.symm (List.append_ne_nil_of_right_ne_nil _ (List.cons_ne_nil _ _))

theorem exposed_cons {t : Token} {ts : List Token} :
    Exposed nesting texts depth (t :: ts) ↔
      (depth = 0 ∧ t.text ∈ texts) ∨ Exposed nesting texts (depth + nesting t) ts := by
  constructor
  · rintro ⟨front, u, back, heq, htext, hdepth⟩
    cases front with
    | nil =>
        cases heq
        rw [depthBehind_nil, Int.add_zero] at hdepth
        exact .inl ⟨hdepth, htext⟩
    | cons f front =>
        cases heq
        rw [depthBehind_cons, ← Int.add_assoc] at hdepth
        exact .inr ⟨front, u, back, rfl, htext, hdepth⟩
  · rintro (⟨hdepth, htext⟩ | ⟨front, u, back, rfl, htext, hdepth⟩)
    · exact ⟨[], t, ts, rfl, htext, by rw [depthBehind_nil, Int.add_zero, hdepth]⟩
    · exact ⟨t :: front, u, back, rfl, htext, by rw [depthBehind_cons, ← Int.add_assoc, hdepth]⟩

theorem exposed_append {ts us : List Token} :
    Exposed nesting texts depth (ts ++ us) ↔ Exposed nesting texts depth ts ∨
      Exposed nesting texts (depth + depthBehind nesting ts) us := by
  induction ts generalizing depth with
  | nil => rw [List.nil_append, depthBehind_nil, Int.add_zero, or_iff_right not_exposed_nil]
  | cons t ts ih =>
    rw [List.cons_append, exposed_cons, exposed_cons, ih, depthBehind_cons, Int.add_assoc, or_assoc]

instance decidableExposed (nesting : Token → Int) (texts : List String) :
    (depth : Int) → (ts : List Token) → Decidable (Exposed nesting texts depth ts)
  | _, [] => isFalse not_exposed_nil
  | depth, t :: ts =>
    haveI := decidableExposed nesting texts (depth + nesting t) ts
    decidable_of_iff _ exposed_cons.symm

/-! ### Statements -/

theorem takeStatementFrom_balanced {ts : List Token} {stop : Token}
    (hfronts : ∀ front, front <+: ts → 0 ≤ depth + depthBehind statementNesting front)
    (htotal : depth + depthBehind statementNesting ts = 0)
    (hclosed : ¬ Exposed statementNesting [";"] depth ts) (hstop : stop.text = ";")
    (rest : List Token) : takeStatementFrom depth (ts ++ stop :: rest) = .ok (ts, rest) := by
  induction ts generalizing depth with
  | nil =>
      rw [depthBehind_nil, Int.add_zero] at htotal
      rw [List.nil_append, takeStatementFrom, if_pos ⟨hstop, Int.le_of_eq htotal⟩]
  | cons t ts ih =>
      rw [forall_prefix_cons, depthBehind_nil, Int.add_zero] at hfronts
      rw [exposed_cons, not_or] at hclosed
      simp only [depthBehind_cons, ← Int.add_assoc] at hfronts htotal
      have hgoes : ¬ (t.text = ";" ∧ depth ≤ 0) := by
        rintro ⟨htext, hdepth⟩
        exact hclosed.1 ⟨Int.le_antisymm hdepth hfronts.1, List.mem_singleton.2 htext⟩
      rw [List.cons_append, takeStatementFrom, if_neg hgoes, ih hfronts.2 htotal hclosed.2]

/-- **A statement goes to the semicolon** behind tokens that balance and expose none. -/
theorem takeStatement_balanced {ts : List Token} {stop : Token}
    (hbalanced : BalancedBy statementNesting ts) (hclosed : ¬ Exposed statementNesting [";"] 0 ts)
    (hstop : stop.text = ";") (rest : List Token) :
    takeStatement (ts ++ stop :: rest) = .ok (ts, rest) := by
  refine takeStatementFrom_balanced ?_ ?_ hclosed hstop rest
  · intro front hfront
    rw [Int.zero_add]
    exact hbalanced.1 front hfront
  · rw [Int.zero_add, hbalanced.2]

/-! ### Headers -/

theorem headerEnd_of_not_exposed {ts : List Token}
    (h : ¬ Exposed headerNesting [openingBrace, ";"] depth ts) (rest : List Token) :
    headerEnd depth (ts ++ rest) = headerEnd (depth + depthBehind headerNesting ts) rest := by
  induction ts generalizing depth with
  | nil => rw [List.nil_append, depthBehind_nil, Int.add_zero]
  | cons t ts ih =>
      rw [exposed_cons, not_or] at h
      have hgoes : ¬ (depth = 0 ∧ (t.text = openingBrace ∨ t.text = ";")) := by
        rintro ⟨hdepth, htext⟩
        exact h.1 ⟨hdepth, by simpa using htext⟩
      rw [List.cons_append, headerEnd, if_neg hgoes, ih h.2, depthBehind_cons, Int.add_assoc]

/-- **The header of a type goes to the mark** behind tokens that come back to depth zero and expose
none. -/
theorem headerEnd_balanced {ts : List Token} {stop : Token}
    (hclosed : ¬ Exposed headerNesting [openingBrace, ";"] depth ts)
    (htotal : depth + depthBehind headerNesting ts = 0)
    (hstop : stop.text = openingBrace ∨ stop.text = ";") (rest : List Token) :
    headerEnd depth (ts ++ stop :: rest) = some (stop, rest) := by
  rw [headerEnd_of_not_exposed hclosed, htotal, headerEnd, if_pos ⟨rfl, hstop⟩]

/-- It goes there behind no other tokens. -/
theorem headerEnd_ok_iff {ts rest : List Token} {stop : Token}
    (hstop : stop.text = openingBrace ∨ stop.text = ";") :
    (∃ last, headerEnd depth (ts ++ stop :: rest) = some (last, rest)) ↔ ¬ Exposed headerNesting
        [openingBrace, ";"] depth ts ∧ depth + depthBehind headerNesting ts = 0 := by
  constructor
  · rintro ⟨last, h⟩
    induction ts generalizing depth with
    | nil =>
        rw [List.nil_append, headerEnd] at h
        split at h
        · next hends => exact ⟨not_exposed_nil, by rw [depthBehind_nil, Int.add_zero, hends.1]⟩
        · exact absurd (headerEnd_length_lt h) (Nat.lt_irrefl _)
    | cons t ts ih =>
        rw [List.cons_append, headerEnd] at h
        split at h
        · -- the header would end too early
          have hlength := congrArg (fun p => p.2.length) (Option.some.inj h)
          simp at hlength
          omega
        · next hgoes =>
          obtain ⟨hclosed, htotal⟩ := ih h
          refine ⟨?_, by rw [depthBehind_cons, ← Int.add_assoc, htotal]⟩
          rw [exposed_cons, not_or]
          refine ⟨?_, hclosed⟩
          rintro ⟨hdepth, htext⟩
          exact hgoes ⟨hdepth, by simpa using htext⟩
  · rintro ⟨hclosed, htotal⟩
    exact ⟨stop, headerEnd_balanced hclosed htotal hstop rest⟩

/-- The texts of the marks that end the header of a member. -/
def memberMarks : List String := [";", openingBrace, "=>", closingBrace]

/-- **The header of a member goes to the mark** behind tokens that come back to depth zero and
expose none. -/
theorem memberHeader_balanced {ts : List Token} {stop : Token}
    (hclosed : ¬ Exposed roundNesting memberMarks depth ts)
    (htotal : depth + depthBehind roundNesting ts = 0) (hstop : stop.text ∈ memberMarks)
    (rest : List Token) : memberHeader depth (ts ++ stop :: rest) = some (ts, stop, rest) := by
  induction ts generalizing depth with
  | nil =>
      rw [depthBehind_nil, Int.add_zero] at htotal
      rw [List.nil_append, memberHeader, if_pos ⟨htotal, List.contains_iff_mem.2 hstop⟩]
  | cons t ts ih =>
      rw [exposed_cons, not_or] at hclosed
      rw [depthBehind_cons, ← Int.add_assoc] at htotal
      have hgoes : ¬ (depth = 0 ∧ endsMemberHeader t) := by
        rintro ⟨hdepth, htext⟩
        exact hclosed.1 ⟨hdepth, List.contains_iff_mem.1 htext⟩
      rw [List.cons_append, memberHeader, if_neg hgoes, ih hclosed.2 htotal, Option.map_some]

/-! ### Argument lists -/

/-- A comma is no bracket. -/
theorem nestingWithAngles_comma {t : Token} (h : t.text = ",") : nestingWithAngles t = 0 := by
  rw [nestingWithAngles, h]
  decide

/-- **An argument goes on** as long as it exposes no comma. -/
theorem splitArgumentsFrom_of_not_exposed {ts : List Token}
    (h : ¬ Exposed nestingWithAngles [","] depth ts) (current rest : List Token) :
    splitArgumentsFrom depth current (ts ++ rest) =
      splitArgumentsFrom (depth + depthBehind nestingWithAngles ts) (current ++ ts) rest := by
  induction ts generalizing depth current with
  | nil => rw [List.nil_append, List.append_nil, depthBehind_nil, Int.add_zero]
  | cons t ts ih =>
      rw [exposed_cons, not_or] at h
      have hgoes : ¬ (t.text = "," ∧ depth + nestingWithAngles t = 0) := by
        rintro ⟨htext, hdepth⟩
        rw [nestingWithAngles_comma htext, Int.add_zero] at hdepth
        exact h.1 ⟨hdepth, List.mem_singleton.2 htext⟩
      rw [List.cons_append, splitArgumentsFrom, if_neg hgoes, ih h.2, depthBehind_cons,
        Int.add_assoc, List.append_assoc, List.singleton_append]

end LocalisedEnum
