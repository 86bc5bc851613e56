import LocalisedEnum.Proofs.Declaration.AttributeSection
import LocalisedEnum.Proofs.Token.Escape

/-!
**Expressions without a value.**

Nearly every expression has a value: what is no type, no name, no single token and no sum of string
literals is kept as its text.  So the one way to have none is a sum of literals, perhaps of a single
one, with an escape past the end of Unicode in one of them; and the first such literal settles which
fault it is.

Arguments of attributes and constants are worked out in order, so the first that has no value ends
the work.

Main definitions:

* `FirstOf` — an item of a list with something fine in front of it;
* `OverlongSum` — an expression that has no value;
* `Valued` — an expression that has one;
* `expressionOf`, `initialiserOf?` — the expressions of arguments and of declarators;
* `ArgumentsMeet` — an argument whose expression is come to.

Main results:

* `evaluate_eq_error_iff` — **an expression has no value** exactly when it is a sum with such a
  literal;
* `withArguments_eq_error_iff`, `constantOf_eq_error_iff` — and with it arguments and constants.
-/

set_option autoImplicit false
set_option relaxedAutoImplicit false

namespace LocalisedEnum

/-- Some item is a hit, and those in front of it are fine. -/
inductive FirstOf {α : Type} (fine hit : α → Prop) : List α → Prop
  | here {x : α} {xs : List α} (hx : hit x) : FirstOf fine hit (x :: xs)
  | there {x : α} {xs : List α} (hx : fine x) (hxs : FirstOf fine hit xs) :
      FirstOf fine hit (x :: xs)

theorem firstOf_nil {α : Type} (fine hit : α → Prop) : ¬ FirstOf fine hit [] :=
  nofun

theorem firstOf_cons {α : Type} {fine hit : α → Prop} {x : α} {xs : List α} :
    FirstOf fine hit (x :: xs) ↔ hit x ∨ fine x ∧ FirstOf fine hit xs := by
  constructor
  · intro h
    cases h with
    | here hx => exact Or.inl hx
    | there hx hxs => exact Or.inr ⟨hx, hxs⟩
  · rintro (hx | ⟨hx, hxs⟩)
    · exact .here hx
    · exact .there hx hxs

/-! ### Expressions -/

/-- **A sum of literals that has no value**: one of them has an escape past the end of Unicode, and
those in front of it have values. -/
def OverlongSum (e : EscapeError) (ts : List Token) : Prop :=
  ∃ operands, summands? ts = some operands ∧ FirstOf Token.Decodes (OverlongLiteral e) operands

theorem concatenation_eq_error_iff {e : EscapeError} {ts : List Token} :
    concatenation ts = .error e ↔ FirstOf Token.Decodes (OverlongLiteral e) ts := by
  induction ts with
  | nil => simp [concatenation, firstOf_nil]
  | cons t rest ih =>
      rw [concatenation, bind_eq_error, firstOf_cons, literalValue_eq_error_iff]
      simp only [bind_pure_eq_error, ih, Token.Decodes, exists_and_right]

theorem literalSum_eq_error_iff {e : EscapeError} {ts : List Token} :
    literalSum ts = .error e ↔ OverlongSum e ts := by
  rw [literalSum, OverlongSum]
  cases summands? ts with
  | none => simp
  | some operands => simp [concatenation_eq_error_iff]

/-- Neither a type nor a name is a sum. -/
theorem summands?_of_operand? {operator : String} {ts inside : List Token}
    (h : operand? operator ts = some inside) : summands? ts = none := by
  match ts with
  | t :: opening :: rest =>
      rw [operand?] at h
      split at h
      · next hshape => rw [summands?, if_neg (by rw [hshape.2.1]; decide)]
      · cases h

theorem summands?_of_typeOperand? {ts : List Token} {name : String}
    (h : typeOperand? ts = some name) : summands? ts = none := by
  obtain ⟨inside, hinside, _⟩ := Option.map_eq_some_iff.1 h
  exact summands?_of_operand? hinside

theorem summands?_of_nameOperand? {ts : List Token} {name : String}
    (h : nameOperand? ts = some name) : summands? ts = none := by
  obtain ⟨inside, hinside, _⟩ := Option.bind_eq_some_iff.1 h
  exact summands?_of_operand? hinside

theorem summands?_of_negatedNumeral? {ts : List Token} {value : ArgumentValue}
    (h : negatedNumeral? ts = some value) : summands? ts = none := by
  match ts with
  | [sign, t] =>
      rw [summands?]
      split <;> rfl

theorem evaluateToken_eq_error_iff {e : EscapeError} {t : Token} :
    evaluateToken t = .error e ↔ OverlongLiteral e t := by
  rw [evaluateToken]
  split
  · rw [bind_pure_eq_error, literalValue_eq_error_iff]
  · next hkind =>
    have hnone : ¬ OverlongLiteral e t := fun h => hkind (by rw [h.kind]; rfl)
    simp only [hnone, iff_false]
    split
    · exact ok_ne_error _ _
    · split
      · exact ok_ne_error _ _
      · split
        · exact ok_ne_error _ _
        · split <;> exact ok_ne_error _ _

/-- **An expression has no value** exactly when it is a sum with an escape past the end of
Unicode. -/
theorem evaluate_eq_error_iff {e : EscapeError} {ts : List Token} :
    evaluate ts = .error e ↔ OverlongSum e ts := by
  have hnone : summands? ts = none → ¬ OverlongSum e ts := by
    rintro hsum ⟨operands, hoperands, _⟩
    rw [hsum] at hoperands
    cases hoperands
  unfold evaluate
  split
  · next htype => exact iff_of_false (ok_ne_error _ _) (hnone (summands?_of_typeOperand? htype))
  · next hname => exact iff_of_false (ok_ne_error _ _) (hnone (summands?_of_nameOperand? hname))
  · next t _ _ =>
    rw [bind_pure_eq_error, evaluateToken_eq_error_iff, OverlongSum]
    simp [summands?, firstOf_cons, firstOf_nil]
  · rw [evaluateCompound]
    split
    · next hnumeral =>
        exact iff_of_false (ok_ne_error _ _) (hnone (summands?_of_negatedNumeral? hnumeral))
    · rw [bind_pure_eq_error, literalSum_eq_error_iff]

/-- The expression has a value. -/
def Valued (ts : List Token) : Prop :=
  ∃ value, evaluate ts = .ok value

/-! ### Arguments -/

/-- The expression of an argument, which a name may stand in front of. -/
def expressionOf : List Token → List Token
  | key :: mark :: value =>
    if key.kind = .identifier ∧ (mark.text = "=" ∨ mark.text = ":") then value
    else key :: mark :: value
  | argument => argument

/-- An argument is worked out with its expression, whatever it is for. -/
theorem withArgument_eq_bind (a : Attribute) (argument : List Token) :
    ∃ f : ArgumentValue → Attribute, a.withArgument argument =
      evaluate (expressionOf argument) >>= fun value => pure (f value) := by
  rw [Attribute.withArgument.eq_def]
  split
  · next key mark value =>
    split
    · next h =>
      rw [expressionOf, if_pos ⟨h.1, Or.inl h.2⟩]
      exact ⟨_, rfl⟩
    · next hequals =>
      split
      · next h =>
        rw [expressionOf, if_pos ⟨h.1, Or.inr h.2⟩]
        exact ⟨_, rfl⟩
      · next hcolon =>
        have hbare : ¬ (key.kind = .identifier ∧ (mark.text = "=" ∨ mark.text = ":")) :=
          fun ⟨hkind, hmark⟩ => hmark.elim (fun h => hequals ⟨hkind, h⟩) fun h => hcolon ⟨hkind, h⟩
        rw [expressionOf, if_neg hbare]
        exact ⟨_, rfl⟩
  · next hshort =>
    rw [expressionOf.eq_def]
    split
    · exact absurd rfl (hshort _ _ _)
    · exact ⟨_, rfl⟩

/-- One of the arguments has an expression with the property, and the expressions in front of it
have values. -/
def ArgumentsMeet (P : List Token → Prop) (arguments : List (List Token)) : Prop :=
  FirstOf (fun argument => Valued (expressionOf argument))
    (fun argument => P (expressionOf argument)) arguments

theorem withArguments_eq_error_iff {e : EscapeError} {a : Attribute}
    {arguments : List (List Token)} :
    arguments.foldlM Attribute.withArgument a = .error e ↔
      ArgumentsMeet (OverlongSum e) arguments := by
  induction arguments generalizing a with
  | nil => exact iff_of_false (ok_ne_error _ _) (firstOf_nil _ _)
  | cons argument arguments ih =>
      obtain ⟨f, hf⟩ := withArgument_eq_bind a argument
      rw [List.foldlM_cons, bind_eq_error, ArgumentsMeet, firstOf_cons, hf, bind_pure_eq_error,
        evaluate_eq_error_iff]
      refine or_congr_right ⟨?_, ?_⟩
      · rintro ⟨next, hnext, h⟩
        obtain ⟨value, hvalue, _⟩ := bind_eq_ok.1 hnext
        exact ⟨⟨value, hvalue⟩, ih.1 h⟩
      · rintro ⟨⟨value, hvalue⟩, h⟩
        exact ⟨f value, bind_eq_ok.2 ⟨value, hvalue, rfl⟩, ih.2 h⟩

/-! ### Declarators -/

/-- The initialiser of a declarator: what stands behind its first equals sign, if a name stands in
front. -/
def initialiserOf? (declarator : List Token) : Option (List Token) :=
  match (declarator.takeWhile (!·.text == "=")).getLast?, declarator.dropWhile (!·.text == "=") with
  | some _, _ :: initialiser => some initialiser
  | _, _ => none

/-- The constant of a declarator, where the value of its initialiser is a text. -/
def namedConstant (name : Token) : ArgumentValue → Option (String × CodeText)
  | .text value => some (name.plain, value)
  | _ => none

theorem constantOf_of_initialiser {declarator initialiser : List Token}
    (h : initialiserOf? declarator = some initialiser) :
    ∃ f : ArgumentValue → Option (String × CodeText),
      constantOf declarator = evaluate initialiser >>= fun value => pure (f value) := by
  simp only [initialiserOf?] at h
  split at h
  · next name equals rest hname htail =>
    cases h
    refine ⟨namedConstant name, ?_⟩
    simp only [constantOf, hname, htail]
    congr 1
    funext value
    cases value <;> rfl
  · cases h

theorem constantOf_of_no_initialiser {declarator : List Token}
    (h : initialiserOf? declarator = none) : constantOf declarator = .ok none := by
  simp only [initialiserOf?] at h
  split at h
  · cases h
  · simp only [constantOf]

theorem constantOf_eq_error_iff {e : EscapeError} {declarator : List Token} :
    constantOf declarator = .error e ↔
      ∃ initialiser ∈ initialiserOf? declarator, OverlongSum e initialiser := by
  cases h : initialiserOf? declarator with
  | none => simp [constantOf_of_no_initialiser h]
  | some initialiser =>
      obtain ⟨f, hf⟩ := constantOf_of_initialiser h
      rw [hf, bind_pure_eq_error, evaluate_eq_error_iff]
      simp

theorem exists_constantOf_iff {declarator : List Token} :
    (∃ constant, constantOf declarator = .ok constant) ↔
      ∀ initialiser ∈ initialiserOf? declarator, Valued initialiser := by
  cases h : initialiserOf? declarator with
  | none => simp [constantOf_of_no_initialiser h]
  | some initialiser =>
      obtain ⟨f, hf⟩ := constantOf_of_initialiser h
      rw [hf]
      constructor
      · rintro ⟨constant, hconstant⟩ _ hinitialiser
        cases hinitialiser
        obtain ⟨value, hvalue, _⟩ := bind_eq_ok.1 hconstant
        exact ⟨value, hvalue⟩
      · intro hvalued
        obtain ⟨value, hvalue⟩ := hvalued initialiser rfl
        exact ⟨f value, bind_eq_ok.2 ⟨value, hvalue, rfl⟩⟩

/-- A step taken for each item of a list fails with the first item for which it does. -/
theorem mapM_eq_error_iff {ε α β : Type} {f : α → Except ε β} {xs : List α} {e : ε} :
    xs.mapM f = .error e ↔ FirstOf (fun x => ∃ y, f x = .ok y) (fun x => f x = .error e) xs := by
  induction xs with
  | nil => exact iff_of_false (ok_ne_error _ _) (firstOf_nil _ _)
  | cons x xs ih =>
      rw [List.mapM_cons, bind_eq_error, firstOf_cons]
      simp only [bind_pure_eq_error, ih, exists_and_right]

end LocalisedEnum
