import LocalisedEnum.Proofs.Declaration.ConstantNames
import LocalisedEnum.Proofs.Declaration.Depth
import LocalisedEnum.Proofs.Declaration.TypeParameters

/-!
**Angle brackets that compare.**

An angle bracket opens or closes a list of type arguments, or it compares.  Arguments and the
headers of types are taken apart by one depth of nesting, in which every angle bracket counts as a
bracket, also one that compares and stands between parentheses.  So `(1 < 2), 3` is one argument,
and a type whose header says `(bool b = 1 < 2)` has no body.  How far this goes is said exactly:
arguments are told apart, and the header of a type ends at its brace, if and only if as many angle
brackets are opened as closed and those that are open cancel no other bracket at a comma or at a
brace.

Main definitions:

* `CommaSeparated` — arguments with a comma between each two;
* `EvenAngles`, `AnglesFit`, `AnglesFitHeader` — angle brackets that disturb neither what follows
  nor what they stand in.

Main results:

* `splitArguments_eq_iff` — an argument list falls into its arguments exactly if each comes back to
  the depth at which it began and exposes no comma;
* `declareFrom_header_iff` — a declaration of a type goes to the brace behind its header exactly if
  the angle brackets of the header fit;
* `angles_fit` — **what angle brackets disturb**, in arguments, constants and headers.
-/

set_option autoImplicit false
set_option relaxedAutoImplicit false

namespace LocalisedEnum

/-! ### Angle brackets among the others -/

/-- How an angle bracket changes the depth of nesting. -/
def angleNesting (t : Token) : Int :=
  if t.text = "<" then 1 else if t.text = ">" then -1 else 0

theorem nestingWithAngles_eq (t : Token) :
    nestingWithAngles t = statementNesting t + angleNesting t := by
  by_cases hopening : t.text = "<"
  · rw [nestingWithAngles, statementNesting, angleNesting, hopening]
    decide
  · by_cases hclosing : t.text = ">"
    · rw [nestingWithAngles, statementNesting, angleNesting, hclosing]
      decide
    · simp [nestingWithAngles, statementNesting, angleNesting, hopening, hclosing]

theorem headerNesting_eq (t : Token) : headerNesting t = roundNesting t + angleNesting t := by
  by_cases hopening : t.text = "<"
  · rw [headerNesting, roundNesting, angleNesting, hopening]
    decide
  · by_cases hclosing : t.text = ">"
    · rw [headerNesting, roundNesting, angleNesting, hclosing]
      decide
    · simp [headerNesting, roundNesting, angleNesting, hopening, hclosing]

/-- **Even angle brackets**: as many are opened as closed. -/
def EvenAngles (ts : List Token) : Prop :=
  countText "<" ts = countText ">" ts

instance (ts : List Token) : Decidable (EvenAngles ts) :=
  inferInstanceAs (Decidable (countText "<" ts = countText ">" ts))

theorem depthBehind_angles (ts : List Token) :
    depthBehind angleNesting ts = (countText "<" ts : Int) - countText ">" ts := by
  induction ts with
  | nil => rfl
  | cons t ts ih =>
      rw [depthBehind_cons, ih, angleNesting, countText_cons, countText_cons]
      split
      · next ht => rw [if_neg (by rw [ht]; decide)]; omega
      · split <;> omega

/-- Where the other brackets balance, the angle brackets alone make a difference to the depth. -/
theorem depthBehind_eq_zero_iff {nesting others : Token → Int}
    (hsum : ∀ t, nesting t = others t + angleNesting t) {ts : List Token}
    (h : depthBehind others ts = 0) : depthBehind nesting ts = 0 ↔ EvenAngles ts := by
  have hdepth : depthBehind nesting ts = depthBehind others ts + depthBehind angleNesting ts := by
    clear h
    induction ts with
    | nil => rfl
    | cons t ts ih => rw [depthBehind_cons, depthBehind_cons, depthBehind_cons, ih, hsum]; omega
  rw [hdepth, h, depthBehind_angles, EvenAngles]
  omega

/-! ### Argument lists -/

/-- **Arguments with a comma between each two.** -/
inductive CommaSeparated : List (List Token) → List Token → Prop
  | single (argument : List Token) : CommaSeparated [argument] argument
  | more (argument : List Token) {comma : Token} {others : List (List Token)} {ts : List Token}
      (hcomma : comma.text = ",") (hothers : CommaSeparated others ts) :
      CommaSeparated (argument :: others) (argument ++ comma :: ts)

/-- What has been read of an argument is the front of the first argument that is split off. -/
theorem splitArgumentsFrom_front (depth : Int) {current : List Token} (hne : current ≠ [])
    (ts : List Token) :
    ∃ more others, splitArgumentsFrom depth current ts = (current ++ more) :: others := by
  induction ts generalizing depth current with
  | nil => exact ⟨[], [], by simp [splitArgumentsFrom, hne]⟩
  | cons t ts ih =>
      rw [splitArgumentsFrom]
      split
      · exact ⟨[], _, by rw [List.append_nil]⟩
      · obtain ⟨more, others, hmore⟩ :=
          ih (depth + nestingWithAngles t)
            (List.append_ne_nil_of_right_ne_nil current (List.cons_ne_nil t []))
        exact ⟨t :: more, others, by rw [hmore, List.append_assoc, List.singleton_append]⟩

/-- At an exposed comma an argument is split, so the first one ends in front of it. -/
theorem splitArgumentsFrom_of_exposed {depth : Int} {ts : List Token}
    (h : Exposed nestingWithAngles [","] depth ts) (current rest : List Token) :
    ∃ front others, front.length < ts.length ∧
      splitArgumentsFrom depth current (ts ++ rest) = (current ++ front) :: others := by
  induction ts generalizing depth current with
  | nil => exact absurd h not_exposed_nil
  | cons t ts ih =>
      rw [exposed_cons] at h
      rw [List.cons_append, splitArgumentsFrom]
      split
      · exact ⟨[], _, Nat.succ_pos _, by rw [List.append_nil]⟩
      · next hgoes =>
        rcases h with ⟨hdepth, htext⟩ | h
        · have htext := List.mem_singleton.1 htext
          exact absurd ⟨htext, by rw [nestingWithAngles_comma htext, hdepth]; rfl⟩ hgoes
        · obtain ⟨front, others, hlength, hsplit⟩ := ih h (current ++ [t])
          refine ⟨t :: front, others, Nat.succ_lt_succ hlength, ?_⟩
          rw [hsplit, List.append_assoc, List.singleton_append]

/-- **An argument list falls into its arguments** exactly if none exposes a comma, and each but the
last comes back to the depth at which it began. -/
theorem splitArguments_eq_iff {arguments : List (List Token)} {ts : List Token}
    (hts : CommaSeparated arguments ts) (hne : ∀ argument ∈ arguments, argument ≠ []) :
    splitArguments ts = arguments ↔
      (∀ argument ∈ arguments.dropLast, depthBehind nestingWithAngles argument = 0) ∧
      ∀ argument ∈ arguments, ¬ Exposed nestingWithAngles [","] 0 argument := by
  rw [splitArguments]
  induction hts with
  | single argument =>
      have hargument := hne argument List.mem_cons_self
      simp only [List.dropLast_singleton, List.not_mem_nil, false_implies, implies_true, true_and,
        List.forall_mem_cons, and_true]
      constructor
      · intro hsplit hexposed
        obtain ⟨front, others, hlength, hfront⟩ := splitArgumentsFrom_of_exposed hexposed [] []
        rw [List.append_nil, hsplit] at hfront
        cases hfront
        exact Nat.lt_irrefl _ hlength
      · intro hclosed
        rw [← List.append_nil argument, splitArgumentsFrom_of_not_exposed hclosed]
        simp [splitArgumentsFrom, hargument]
  | @more argument comma others ts hcomma hothers ih =>
      rw [List.forall_mem_cons] at hne ⊢
      have hlast : (argument :: others).dropLast = argument :: others.dropLast := by
        cases hothers <;> rfl
      rw [hlast, List.forall_mem_cons]
      by_cases hexposed : Exposed nestingWithAngles [","] 0 argument
      · -- the first argument would be cut
        obtain ⟨front, pieces, hlength, hfront⟩ :=
          splitArgumentsFrom_of_exposed hexposed [] (comma :: ts)
        refine iff_of_false ?_ fun h => h.2.1 hexposed
        rw [hfront]
        intro hsplit
        rw [← (List.cons.inj hsplit).1] at hlength
        exact Nat.lt_irrefl _ hlength
      · rw [splitArgumentsFrom_of_not_exposed hexposed, List.nil_append, Int.zero_add,
          splitArgumentsFrom, nestingWithAngles_comma hcomma, Int.add_zero]
        by_cases hdepth : depthBehind nestingWithAngles argument = 0
        · rw [if_pos ⟨hcomma, hdepth⟩, hdepth, List.cons.injEq, and_iff_right rfl, ih hne.2]
          simp only [hexposed, not_false_eq_true, true_and]
        · -- the comma behind the first argument would be taken into it
          rw [if_neg fun h => hdepth h.2]
          refine iff_of_false ?_ fun h => hdepth h.1.1
          obtain ⟨more, pieces, hmore⟩ := splitArgumentsFrom_front
            (depthBehind nestingWithAngles argument)
            (List.append_ne_nil_of_right_ne_nil argument (List.cons_ne_nil comma [])) ts
          rw [hmore]
          intro hsplit
          have hlength := congrArg List.length (List.cons.inj hsplit).1
          simp at hlength

/-- **Angle brackets that fit** into a list of arguments: in each argument but the last as many are
opened as closed, and at no comma inside an argument do they cancel the other brackets. -/
def AnglesFit (arguments : List (List Token)) : Prop :=
  (∀ argument ∈ arguments.dropLast, EvenAngles argument) ∧
    ∀ argument ∈ arguments, ¬ Exposed nestingWithAngles [","] 0 argument

/-- Where the other brackets balance, the arguments are told apart exactly if the angle brackets
fit. -/
theorem splitArguments_eq_iff_fit {arguments : List (List Token)} {ts : List Token}
    (hts : CommaSeparated arguments ts)
    (harguments : ∀ argument ∈ arguments, argument ≠ [] ∧ BalancedBy statementNesting argument) :
    splitArguments ts = arguments ↔ AnglesFit arguments := by
  rw [splitArguments_eq_iff hts fun argument hargument => (harguments argument hargument).1,
    AnglesFit]
  have heven : (∀ argument ∈ arguments.dropLast, depthBehind nestingWithAngles argument = 0) ↔
      ∀ argument ∈ arguments.dropLast, EvenAngles argument := by
    refine forall₂_congr fun argument hargument => ?_
    exact depthBehind_eq_zero_iff nestingWithAngles_eq
      (harguments argument (List.dropLast_subset _ hargument)).2.2
  rw [heven]

/-! ### Constants -/

section Enclosed

variable {nesting : Token → Int} {arguments : List (List Token)} {ts : List Token}
  (hcomma : ∀ t : Token, t.text = "," → nesting t = 0)

include hcomma in
theorem CommaSeparated.balanced (h : CommaSeparated arguments ts)
    (hall : ∀ argument ∈ arguments, BalancedBy nesting argument) : BalancedBy nesting ts := by
  induction h with
  | single argument => exact hall argument List.mem_cons_self
  | @more argument comma others ts htext _ ih =>
      rw [List.forall_mem_cons] at hall
      exact hall.1.append ((balancedBy_singleton (hcomma comma htext)).append (ih hall.2))

include hcomma in
theorem CommaSeparated.not_exposed {texts : List String} (htexts : "," ∉ texts)
    (h : CommaSeparated arguments ts)
    (hall :
      ∀ argument ∈ arguments, BalancedBy nesting argument ∧ ¬ Exposed nesting texts 0 argument) :
    ¬ Exposed nesting texts 0 ts := by
  induction h with
  | single argument => exact (hall argument List.mem_cons_self).2
  | @more argument comma others ts htext _ ih =>
      rw [List.forall_mem_cons] at hall
      rw [exposed_append, exposed_cons, hall.1.1.2, htext, hcomma comma htext, not_or, not_or]
      exact ⟨hall.1.2, fun h => htexts h.2, ih hall.2⟩

end Enclosed

theorem statementNesting_comma (t : Token) (h : t.text = ",") : statementNesting t = 0 := by
  rw [statementNesting, h]
  decide

/-- Declarators whose semicolons are enclosed are read up to the semicolon behind them. -/
theorem readConstants_commaSeparated {declarators : List (List Token)} {inside : List Token}
    {semicolon : Token} (hinside : CommaSeparated declarators inside)
    (hdeclarators : ∀ declarator ∈ declarators, BalancedBy statementNesting declarator ∧
      ¬ Exposed statementNesting [";"] 0 declarator) (hsemicolon : semicolon.text = ";")
    (rest : List Token) :
    readConstants (inside ++ semicolon :: rest) = orEscapeFault
        (constantsOf (splitArguments inside)) >>= fun constants => pure (constants, rest) := by
  have hbalanced :=
    hinside.balanced statementNesting_comma fun declarator h => (hdeclarators declarator h).1
  have hclosed := hinside.not_exposed statementNesting_comma (by decide) hdeclarators
  rw [readConstants, takeStatement_balanced hbalanced hclosed hsemicolon]
  rfl

/-! ### Headers -/

/-- **Angle brackets that fit** into the header of a type: as many are opened as closed, and at no
brace and no semicolon inside the header do they cancel the other brackets. -/
def AnglesFitHeader (header : List Token) : Prop :=
  EvenAngles header ∧ ¬ Exposed headerNesting [openingBrace, ";"] 0 header

/-- **A declaration of a type goes to the brace** behind its header exactly if the angle brackets of
the header fit. -/
theorem declareFrom_header_iff {path : String} {front header : List Token} {brace : Token}
    (hfront : IsTypeFront path front) (hheader : BalancedBy roundNesting header)
    (hbrace : brace.text = openingBrace) (w : Walk) (start : Token) (rest : List Token) :
    (∃ w', w.declareFrom path start (front ++ (header ++ brace :: rest)) = .ok (w', rest)) ↔
      AnglesFitHeader header := by
  rw [hfront.declareFrom_ok_iff, headerEnd_ok_iff (.inl hbrace), Int.zero_add,
    depthBehind_eq_zero_iff headerNesting_eq hheader.2, and_comm, AnglesFitHeader]

/-- A file declares the same with such a header as without it. -/
theorem run_header {path : String} {front header : List Token} {brace : Token}
    (hfront : IsTypeFront path front) (hheader : BalancedBy roundNesting header)
    (hfit : AnglesFitHeader header) (hbrace : brace.text = openingBrace) (w : Walk)
    (rest : List Token) :
    Walk.run path w (front ++ (header ++ brace :: rest)) =
      Walk.run path w (front ++ brace :: rest) := by
  have htotal := (depthBehind_eq_zero_iff headerNesting_eq hheader.2).2 hfit.1
  have hwith : headerEnd 0 (header ++ brace :: rest) = some (brace, rest) :=
    headerEnd_balanced hfit.2 (by rw [htotal, Int.zero_add]) (.inl hbrace) rest
  have hwithout : headerEnd 0 (brace :: rest) = some (brace, rest) :=
    headerEnd_balanced not_exposed_nil rfl (.inl hbrace) rest
  exact hfront.run_congr (hwith.trans hwithout.symm) w

/-! ### What angle brackets disturb -/

/-- **What angle brackets disturb**, whatever follows.  Let the other brackets balance.  An argument
list falls into its arguments if and only if the angle brackets fit.  If they fit into the
declarators of a declaration of constants, the value of each constant is read from its own
declarator, whatever stands in the others.  The declaration of a type goes to the brace behind its
header if and only if the angle brackets of the header fit; then its body and everything behind it
are read as without the header. -/
theorem angles_fit (path : String) (w : Walk) (rest : List Token) :
    (∀ arguments ts, CommaSeparated arguments ts →
      (∀ argument ∈ arguments, argument ≠ [] ∧ BalancedBy statementNesting argument) →
      (splitArguments ts = arguments ↔ AnglesFit arguments)) ∧
    (∀ declarators inside semicolon, CommaSeparated declarators inside →
      (∀ declarator ∈ declarators, declarator ≠ [] ∧ BalancedBy statementNesting declarator ∧
        ¬ Exposed statementNesting [";"] 0 declarator) → semicolon.text = ";" →
      AnglesFit declarators →
      ∀ constants,
        (readConstants (inside ++ semicolon :: rest) = .ok (constants, rest) ↔
          constantsOf declarators = .ok constants) ∧
        (constantsOf declarators = .ok constants →
          ∀ name, valueOf? name constants = declarators.reverse.findSome? (declaredValue name))) ∧
    ∀ front header brace, IsTypeFront path front → BalancedBy roundNesting header →
      brace.text = openingBrace →
      (∀ start,
        (∃ w', w.declareFrom path start (front ++ (header ++ brace :: rest)) = .ok (w', rest)) ↔
          AnglesFitHeader header) ∧
      (AnglesFitHeader header →
        Walk.run path w (front ++ (header ++ brace :: rest)) =
          Walk.run path w (front ++ brace :: rest)) := by
  refine ⟨fun arguments ts => splitArguments_eq_iff_fit, ?_, ?_⟩
  · intro declarators inside semicolon hinside hdeclarators hsemicolon hfit constants
    have hsplit := (splitArguments_eq_iff_fit hinside fun declarator h =>
      ⟨(hdeclarators declarator h).1, (hdeclarators declarator h).2.1⟩).2 hfit
    have hread := readConstants_commaSeparated hinside
      (fun declarator h => (hdeclarators declarator h).2) hsemicolon rest
    rw [hsplit] at hread
    refine ⟨?_, valueOf?_constantsOf⟩
    rw [hread]
    cases constantsOf declarators with
    | error e => exact iff_of_false (fun h => nomatch h) fun h => nomatch h
    | ok found =>
        show Except.ok (found, rest) = _ ↔ _
        simp only [Except.ok.injEq, Prod.mk.injEq, and_true]
  · intro front header brace hfront hheader hbrace
    exact ⟨fun start => declareFrom_header_iff hfront hheader hbrace w start rest,
      fun hfit => run_header hfront hheader hfit hbrace w rest⟩

/-- Angle brackets that do not fit: behind a comparison a comma tells no arguments apart. -/
example : splitArguments (tokenise "(1 < 2), 3") = [tokenise "(1 < 2), 3"] := by
  decide +kernel

/-- Two declarators, the first with comparisons in both directions. -/
def comparingDeclarators : List (List Token) :=
  [tokenise "A = (1 < 2) == (3 > 2) ? 4 : 5", tokenise "B = \"b\""]

/-- The header of a record that compares in both directions. -/
def comparingHeader : List Token :=
  tokenise "(bool B = 1 < 2, bool C = 2 > 1)"

/-- Comparisons in both directions fit. -/
theorem angles_fit_comparisons :
    let comma : Token := ⟨.operator, ",", 1, 1⟩
    let semicolon : Token := ⟨.operator, ";", 1, 1⟩
    let brace : Token := ⟨.operator, openingBrace, 1, 1⟩
    let inside := comparingDeclarators[0] ++ comma :: comparingDeclarators[1]
    let body := tokenise "public static string P => \"p\"; \x7d"
    splitArguments inside = comparingDeclarators ∧
      (readConstants (inside ++ [semicolon]) = .ok ([("B", .ofString "b")], []) ∧
        valueOf? "B" [("B", .ofString "b")] =
          comparingDeclarators.reverse.findSome? (declaredValue "B")) ∧
      Walk.run "File0.cs" .start (tokenise "record R" ++ (comparingHeader ++ brace :: body)) =
        Walk.run "File0.cs" .start (tokenise "record R" ++ brace :: body) := by
  intro comma semicolon brace inside body
  have hinside : CommaSeparated comparingDeclarators inside := .more _ rfl (.single _)
  have hdeclarators : ∀ declarator ∈ comparingDeclarators, declarator ≠ [] ∧
      BalancedBy statementNesting declarator ∧ ¬ Exposed statementNesting [";"] 0 declarator := by
    decide +kernel
  have hfit : AnglesFit comparingDeclarators := ⟨by decide +kernel, by decide +kernel⟩
  have hconstants : constantsOf comparingDeclarators = .ok [("B", .ofString "b")] := by
    decide +kernel
  have hfront : IsTypeFront "File0.cs" (tokenise "record R") := by
    refine ⟨[], [], ⟨.identifier, "record", 1, 1⟩, [], ⟨.identifier, "R", 1, 8⟩, ?_, by decide,
      by decide, by decide⟩
    decide +kernel
  have hheader : BalancedBy roundNesting comparingHeader := by decide +kernel
  have hfitHeader : AnglesFitHeader comparingHeader := ⟨by decide +kernel, by decide +kernel⟩
  have hread := (angles_fit "File0.cs" .start []).2.1 _ _ semicolon hinside hdeclarators rfl hfit
    [("B", .ofString "b")]
  refine ⟨?_, ⟨hread.1.2 hconstants, hread.2 hconstants "B"⟩, ?_⟩
  · refine ((angles_fit "File0.cs" .start []).1 _ _ hinside fun declarator h => ?_).2 hfit
    exact ⟨(hdeclarators declarator h).1, (hdeclarators declarator h).2.1⟩
  · exact ((angles_fit "File0.cs" .start body).2.2 _ _ brace hfront hheader rfl).2 hfitHeader

end LocalisedEnum
