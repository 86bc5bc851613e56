import LocalisedEnum.Declaration.Walk
import LocalisedEnum.Proofs.Token.Spacing

/-!
**Reading without places.**

Where tokens stand goes into the locations of declarations and into the lines of faults, and nowhere
else: no reader decides anything by a place.  So every reader commutes with taking the places out of
its tokens, its results and its faults, and what tokens declare can be found out from their kinds
and texts alone.

Main definitions:

* `unplaceAll`, `SourceFile.unplaced`, `Walk.unplaced`, … — tokens, files and walks without places;
* `erased` — the outcome of a reader without places.

Main results:

* one lemma for each reader, which ends in `_unplaced`;
* `run_unplaced`, `readTokens_unplaced` — **the walk and the whole reading** commute with taking out
  places;
* `readSource_of_run` — what a text declares is found from its tokens without their places.
-/

set_option autoImplicit false
set_option relaxedAutoImplicit false

namespace LocalisedEnum

/-! ### Outcomes without places -/

/-- Tokens without their places. -/
abbrev unplaceAll (ts : List Token) : List Token :=
  ts.map Token.unplaced

/-- A fault without its line, if it has one. -/
def Fault.unplaced : Fault → Fault
  | .malformed cause line => .malformed cause (line.map fun _ => 0)
  | .escape e => .escape e

/-- The outcome of a reader whose results have their places taken out by `f`. -/
def erased {α : Type} (f : α → α) : Except Fault α → Except Fault α
  | .ok a => .ok (f a)
  | .error e => .error e.unplaced

/-- What is read in front of the tokens that remain. -/
abbrev beforeRest {α : Type} (f : α → α) : α × List Token → α × List Token :=
  Prod.map f unplaceAll

variable {α β : Type}

@[simp] theorem erased_ok (f : α → α) (a : α) : erased f (.ok a) = .ok (f a) := rfl

@[simp] theorem erased_error (f : α → α) (e : Fault) :
    erased f (.error e : Except Fault α) = .error e.unplaced := rfl

/-- A chain of two steps commutes with taking out places when both steps do. -/
theorem erased_bind {f : α → α} {g : β → β} {x y : Except Fault α} {k k' : α → Except Fault β}
    (hx : y = erased f x) (hk : ∀ a, x = .ok a → k' (f a) = erased g (k a)) :
    (y >>= k') = erased g (x >>= k) := by
  subst hx
  cases x with
  | error e => rfl
  | ok a => exact hk a rfl

theorem at_unplaced (cause : FaultCause) (t : Token) :
    Fault.at cause t.unplaced = (Fault.at cause t).unplaced := rfl

/-! ### Single tokens, names and groups -/

@[simp] theorem plain_unplaced (t : Token) : t.unplaced.plain = t.plain := rfl

@[simp] theorem headIs_unplaced (text : String) (ts : List Token) :
    headIs text (unplaceAll ts) = headIs text ts := by
  cases ts <;> rfl

theorem nextToken_unplaced (ts : List Token) :
    nextToken (unplaceAll ts) = erased (beforeRest Token.unplaced) (nextToken ts) := by
  cases ts <;> rfl

theorem expect_unplaced (text : String) (ts : List Token) :
    expect text (unplaceAll ts) = erased unplaceAll (expect text ts) := by
  cases ts with
  | nil => rfl
  | cons t rest =>
      by_cases h : t.text = text
      · simp [expect, h]
      · simp [expect, h, at_unplaced]

@[simp] theorem skip_unplaced (text : String) (ts : List Token) :
    skip text (unplaceAll ts) = unplaceAll (skip text ts) := by
  cases ts with
  | nil => rfl
  | cons t rest =>
      by_cases h : t.text = text <;> simp [skip, h]

@[simp] theorem isNameMark_unplaced (t : Token) : isNameMark t.unplaced = isNameMark t := rfl

theorem qualifiedNameFrom_unplaced (name : String) (ts : List Token) :
    qualifiedNameFrom name (unplaceAll ts) =
      erased (beforeRest id) (qualifiedNameFrom name ts) := by
  fun_induction qualifiedNameFrom name ts with
  | case1 name => rfl
  | case2 name t h => simp [qualifiedNameFrom, h, Fault.endOfFile, Fault.unplaced]
  | case3 name t h => simp [qualifiedNameFrom, h]
  | case4 name t part rest h ih => simpa [qualifiedNameFrom, h] using ih
  | case5 name t part rest h => simp [qualifiedNameFrom, h]

theorem qualifiedName_unplaced (ts : List Token) :
    qualifiedName (unplaceAll ts) = erased (beforeRest id) (qualifiedName ts) := by
  cases ts with
  | nil => rfl
  | cons t rest => exact qualifiedNameFrom_unplaced t.plain rest

theorem groupInside_unplaced (opening closing : String) (depth : Nat) (ts : List Token) :
    groupInside opening closing depth (unplaceAll ts) =
      (groupInside opening closing depth ts).map (beforeRest unplaceAll) := by
  induction ts generalizing depth with
  | nil => rfl
  | cons t rest ih =>
      by_cases hopening : t.text = opening
      · simp only [List.map_cons, groupInside, hopening, if_true, ih]
        cases groupInside opening closing (depth + 1) rest <;> rfl
      · by_cases hclosing : t.text = closing
        · cases depth with
          | zero =>
              have hne : closing ≠ opening := fun h => hopening (hclosing.trans h)
              simp [groupInside, hclosing, hne]
          | succ depth =>
              simp only [List.map_cons, groupInside, if_neg hopening,
                if_pos hclosing, ih]
              cases groupInside opening closing depth rest <;> rfl
        · simp only [List.map_cons, groupInside, if_neg hopening,
            if_neg hclosing, ih]
          cases groupInside opening closing depth rest <;> rfl

theorem takeGroup_unplaced (opening closing : String) (ts : List Token) :
    takeGroup opening closing (unplaceAll ts) =
      erased (beforeRest unplaceAll) (takeGroup opening closing ts) := by
  cases ts with
  | nil => rfl
  | cons t rest =>
      by_cases h : t.text = opening
      · simp only [List.map_cons, takeGroup, if_pos h, groupInside_unplaced]
        cases groupInside opening closing 0 rest <;> rfl
      · simp [takeGroup, h, at_unplaced]

theorem takeStatementFrom_unplaced (depth : Int) (ts : List Token) :
    takeStatementFrom depth (unplaceAll ts) =
      erased (beforeRest unplaceAll) (takeStatementFrom depth ts) := by
  induction ts generalizing depth with
  | nil => rfl
  | cons t rest ih =>
      have hnesting : statementNesting t.unplaced = statementNesting t := rfl
      by_cases h : t.text = ";" ∧ depth ≤ 0
      · simp [takeStatementFrom, h]
      · simp only [List.map_cons, takeStatementFrom, if_neg h, hnesting, ih]
        cases takeStatementFrom (depth + statementNesting t) rest <;> rfl

theorem takeStatement_unplaced (ts : List Token) :
    takeStatement (unplaceAll ts) = erased (beforeRest unplaceAll) (takeStatement ts) :=
  takeStatementFrom_unplaced 0 ts

/-! ### Expressions -/

theorem joinTokensAfter_unplaced (previous : TokenKind) (ts : List Token) :
    joinTokensAfter previous (unplaceAll ts) = joinTokensAfter previous ts := by
  induction ts generalizing previous with
  | nil => rfl
  | cons t rest ih => simp [joinTokensAfter, ih]

@[simp] theorem joinTokens_unplaced (ts : List Token) :
    joinTokens (unplaceAll ts) = joinTokens ts := by
  cases ts with
  | nil => rfl
  | cons t rest => simp only [List.map_cons, joinTokens, joinTokensAfter_unplaced]

@[simp] theorem literalValue_unplaced (t : Token) : t.unplaced.literalValue = t.literalValue := rfl

theorem operand?_unplaced (operator : String) (ts : List Token) :
    operand? operator (unplaceAll ts) = (operand? operator ts).map unplaceAll := by
  match ts with
  | [] => rfl
  | [_] => rfl
  | t :: opening :: rest =>
      have hlast : (unplaceAll rest).getLast?.any (·.text == ")") =
          rest.getLast?.any (·.text == ")") := by
        rw [List.getLast?_map]
        cases rest.getLast? <;> rfl
      by_cases h : t.text = operator ∧ opening.text = "(" ∧ rest.getLast?.any (·.text == ")")
      · simp only [List.map_cons, operand?, hlast, if_pos h, Option.map_some,
          ← List.map_dropLast]
      · simp only [List.map_cons, operand?, hlast, if_neg h, Option.map_none]

@[simp] theorem typeOperand?_unplaced (ts : List Token) :
    typeOperand? (unplaceAll ts) = typeOperand? ts := by
  rw [typeOperand?, typeOperand?, operand?_unplaced, Option.map_map]
  congr 1
  funext inside
  simp

@[simp] theorem nameOperand?_unplaced (ts : List Token) :
    nameOperand? (unplaceAll ts) = nameOperand? ts := by
  rw [nameOperand?, nameOperand?, operand?_unplaced]
  cases operand? "nameof" ts with
  | none => rfl
  | some inside =>
      have hfilter : (unplaceAll inside).filter (·.kind = .identifier) =
          unplaceAll (inside.filter (·.kind = .identifier)) := by
        rw [List.filter_map]
        rfl
      simp only [Option.map_some, Option.bind_eq_bind, Option.bind_some, hfilter, List.getLast?_map]
      cases (inside.filter (·.kind = .identifier)).getLast? <;> rfl

theorem evaluateToken_unplaced (t : Token) : evaluateToken t.unplaced = evaluateToken t := rfl

theorem negatedNumeral?_unplaced (ts : List Token) :
    negatedNumeral? (unplaceAll ts) = negatedNumeral? ts := by
  match ts with
  | [] => rfl
  | [_] => rfl
  | [_, _] => rfl
  | _ :: _ :: _ :: _ => rfl

theorem summands?_unplaced (ts : List Token) :
    summands? (unplaceAll ts) = (summands? ts).map unplaceAll := by
  fun_induction summands? ts with
  | case1 => rfl
  | case2 t => rfl
  | case3 t plus rest h ih =>
      simp only [List.map_cons, summands?, if_pos h, ih]
      cases summands? rest <;> rfl
  | case4 t plus rest h => simp [summands?, h]

theorem concatenation_unplaced (ts : List Token) :
    concatenation (unplaceAll ts) = concatenation ts := by
  induction ts with
  | nil => rfl
  | cons t rest ih => simp only [List.map_cons, concatenation, literalValue_unplaced, ih]

theorem literalSum_unplaced (ts : List Token) : literalSum (unplaceAll ts) = literalSum ts := by
  rw [literalSum, literalSum, summands?_unplaced]
  cases summands? ts with
  | none => rfl
  | some operands => exact concatenation_unplaced operands

theorem evaluateCompound_unplaced (ts : List Token) :
    evaluateCompound (unplaceAll ts) = evaluateCompound ts := by
  rw [evaluateCompound, evaluateCompound, negatedNumeral?_unplaced, literalSum_unplaced,
    joinTokens_unplaced]

/-- The value of an expression does not depend on where it stands. -/
@[simp] theorem evaluate_unplaced (ts : List Token) : evaluate (unplaceAll ts) = evaluate ts := by
  unfold evaluate
  -- the two forms with an operand come first; what is left is told apart by its length
  rw [typeOperand?_unplaced, nameOperand?_unplaced]
  cases typeOperand? ts with
  | some name => rfl
  | none =>
      cases nameOperand? ts with
      | some name => rfl
      | none =>
          match ts with
          | [] => exact evaluateCompound_unplaced []
          | [t] => simp only [List.map_cons, List.map_nil, evaluateToken_unplaced]
          | t :: next :: rest => exact evaluateCompound_unplaced (t :: next :: rest)

theorem splitArgumentsFrom_unplaced (depth : Int) (current ts : List Token) :
    splitArgumentsFrom depth (unplaceAll current) (unplaceAll ts) =
      (splitArgumentsFrom depth current ts).map unplaceAll := by
  induction ts generalizing depth current with
  | nil => cases current <;> rfl
  | cons t rest ih =>
      have hnesting : nestingWithAngles t.unplaced = nestingWithAngles t := rfl
      have hcurrent : unplaceAll current ++ [t.unplaced] = unplaceAll (current ++ [t]) := by simp
      by_cases h : t.text = "," ∧ depth + nestingWithAngles t = 0
      · simp only [List.map_cons, splitArgumentsFrom, hnesting, if_pos h]
        exact congrArg (unplaceAll current :: ·) (ih _ [])
      · simp only [List.map_cons, splitArgumentsFrom, hnesting, if_neg h,
          hcurrent, ih]

theorem splitArguments_unplaced (ts : List Token) :
    splitArguments (unplaceAll ts) = (splitArguments ts).map unplaceAll :=
  splitArgumentsFrom_unplaced 0 [] ts

/-! ### Attributes -/

/-- A location without its line and its column. -/
def SourceLocation.unplaced (l : SourceLocation) : SourceLocation :=
  { l with line := 0, column := 0 }

/-- An attribute without its place. -/
def Attribute.unplaced (a : Attribute) : Attribute :=
  { a with location := a.location.map SourceLocation.unplaced }

theorem location_unplaced (path : String) (t : Token) :
    t.unplaced.location path = (t.location path).unplaced := rfl

theorem withArgument_unplaced (a : Attribute) (argument : List Token) :
    a.unplaced.withArgument (unplaceAll argument) =
      (a.withArgument argument).map Attribute.unplaced := by
  match argument with
  | [] =>
      simp only [List.map_nil, Attribute.withArgument]
      cases evaluate [] <;> rfl
  | [t] =>
      have h := evaluate_unplaced [t]
      simp only [List.map_cons, List.map_nil] at h
      simp only [List.map_cons, List.map_nil, Attribute.withArgument, h]
      cases evaluate [t] <;> rfl
  | key :: mark :: value =>
      have h := evaluate_unplaced (key :: mark :: value)
      simp only [List.map_cons] at h
      simp only [List.map_cons, Attribute.withArgument,
        plain_unplaced, evaluate_unplaced, h]
      by_cases hnamed : key.kind = .identifier ∧ mark.text = "="
      · simp only [if_pos hnamed]
        cases evaluate value <;> rfl
      · simp only [if_neg hnamed]
        by_cases hlabel : key.kind = .identifier ∧ mark.text = ":"
        · simp only [if_pos hlabel]
          cases evaluate value <;> rfl
        · simp only [if_neg hlabel]
          cases evaluate (key :: mark :: value) <;> rfl

theorem withArguments_unplaced (arguments : List (List Token)) (a : Attribute) :
    (arguments.map unplaceAll).foldlM Attribute.withArgument a.unplaced =
      (arguments.foldlM Attribute.withArgument a).map Attribute.unplaced := by
  induction arguments generalizing a with
  | nil => rfl
  | cons argument rest ih =>
      rw [List.map_cons, List.foldlM_cons, List.foldlM_cons, withArgument_unplaced]
      cases a.withArgument argument with
      | error e => rfl
      | ok b => exact ih b

theorem orEscapeFault_unplaced (f : α → α) (x : Except EscapeError α) :
    orEscapeFault (x.map f) = erased f (orEscapeFault x) := by
  cases x <;> rfl

theorem withTypeArguments_unplaced (name : String) (ts : List Token) :
    withTypeArguments name (unplaceAll ts) =
      erased (beforeRest id) (withTypeArguments name ts) := by
  simp only [withTypeArguments, headIs_unplaced, takeGroup_unplaced]
  split
  · cases takeGroup "<" ">" ts with
    | error e => rfl
    | ok p => simp
  · rfl

theorem readArgumentList_unplaced (ts : List Token) :
    readArgumentList (unplaceAll ts) =
      erased (beforeRest (List.map unplaceAll)) (readArgumentList ts) := by
  simp only [readArgumentList, headIs_unplaced, takeGroup_unplaced]
  split
  · cases takeGroup "(" ")" ts with
    | error e => rfl
    | ok p => simp [splitArguments_unplaced]
  · rfl

theorem readAttribute_unplaced (path : String) (ts : List Token) :
    readAttribute path (unplaceAll ts) =
      erased (beforeRest Attribute.unplaced) (readAttribute path ts) := by
  refine erased_bind (qualifiedName_unplaced ts) ?_
  rintro ⟨name, afterName⟩ _
  refine erased_bind (withTypeArguments_unplaced name afterName) ?_
  rintro ⟨name, afterTypes⟩ _
  refine erased_bind (readArgumentList_unplaced afterTypes) ?_
  rintro ⟨arguments, rest⟩ _
  -- the attribute has its place from the token at the front
  have hbare : (⟨name, [], [], (unplaceAll ts).head?.map (Token.location path)⟩ : Attribute) =
      Attribute.unplaced ⟨name, [], [], ts.head?.map (Token.location path)⟩ := by
    cases ts <;> rfl
  refine erased_bind (f := Attribute.unplaced) ?_ fun _ _ => rfl
  rw [← orEscapeFault_unplaced, ← withArguments_unplaced, ← hbare]
  rfl

theorem drop_unplaced (count : Nat) (ts : List Token) :
    (unplaceAll ts).drop count = unplaceAll (ts.drop count) :=
  List.map_drop.symm

theorem readSectionItems_unplaced (path : String) (ts : List Token) :
    readSectionItems path (unplaceAll ts) =
      erased (beforeRest (List.map Attribute.unplaced)) (readSectionItems path ts) := by
  rw [readSectionItems_eq, readSectionItems_eq path ts, headIs_unplaced, drop_unplaced]
  split
  · rfl
  · refine erased_bind (readAttribute_unplaced path ts) ?_
    rintro ⟨a, rest⟩ h
    simp only [Prod.map_apply, skip_unplaced]
    refine erased_bind (readSectionItems_unplaced path (skip "," rest)) ?_
    rintro ⟨more, rest⟩ _
    rfl
  termination_by ts.length
  decreasing_by
    exact Nat.lt_of_le_of_lt (skip_length_le ..) (readAttribute_length_lt h)

theorem sectionTarget_unplaced (ts : List Token) :
    sectionTarget (unplaceAll ts) = beforeRest id (sectionTarget ts) := by
  match ts with
  | [] => rfl
  | [_] => rfl
  | t :: mark :: rest =>
      by_cases h : mark.text = ":" ∧ t.kind = .identifier <;> simp [sectionTarget, h]

theorem keptItems_unplaced (target : String) (items : List Attribute) :
    keptItems target (items.map Attribute.unplaced) =
      (keptItems target items).map Attribute.unplaced := by
  simp only [keptItems]
  split <;> rfl

theorem readSections_unplaced (path : String) (ts : List Token) :
    readSections path (unplaceAll ts) =
      erased (beforeRest (List.map Attribute.unplaced)) (readSections path ts) := by
  rw [readSections_eq, readSections_eq path ts, headIs_unplaced, drop_unplaced,
    sectionTarget_unplaced]
  split
  · refine erased_bind (readSectionItems_unplaced path _) ?_
    rintro ⟨items, rest⟩ h
    refine erased_bind (readSections_unplaced path rest) ?_
    rintro ⟨more, rest⟩ _
    simp [keptItems_unplaced, pure, Except.pure]
  · rfl
  termination_by ts.length
  decreasing_by
    have h1 := readSectionItems_length_lt h
    have h2 := sectionTarget_length_le (ts.drop 1)
    have h3 := length_drop_one_lt_of_headIs ‹headIs "[" ts = true›
    omega

/-! ### Modifiers, imports and enums -/

theorem readModifiers_unplaced (ts : List Token) :
    readModifiers (unplaceAll ts) = beforeRest id (readModifiers ts) := by
  have hcomp : isModifier ∘ Token.unplaced = isModifier := rfl
  simp [readModifiers, List.takeWhile_map, List.dropWhile_map, hcomp]

theorem takeRest_unplaced {x y : Except Fault (β × List Token)} {f : β → β} (a : α)
    (h : y = erased (beforeRest f) x) :
    (do let (_, rest) ← y; return (a, rest)) =
      erased (beforeRest id) (do let (_, rest) ← x; return (a, rest)) := by
  refine erased_bind h ?_
  rintro ⟨b, rest⟩ _
  rfl

theorem readUsing_unplaced (ts : List Token) :
    readUsing (unplaceAll ts) = erased (beforeRest id) (readUsing ts) := by
  rw [readUsing, readUsing, headIs_unplaced, headIs_unplaced, drop_unplaced, headIs_unplaced]
  split
  · exact takeRest_unplaced none (takeGroup_unplaced "(" ")" ts)
  · split
    · exact takeRest_unplaced none (takeStatement_unplaced ts)
    · refine erased_bind (qualifiedName_unplaced ts) ?_
      rintro ⟨name, afterName⟩ _
      simp only [headIs_unplaced, Prod.map_apply, id_eq]
      split
      · rw [drop_unplaced]
        rfl
      · exact takeRest_unplaced none (takeStatement_unplaced afterName)

theorem skipInitialiser_unplaced (depth : Int) (ts : List Token) :
    skipInitialiser depth (unplaceAll ts) = (skipInitialiser depth ts).map unplaceAll := by
  induction ts generalizing depth with
  | nil => rfl
  | cons t rest ih =>
      have hnesting : roundNesting t.unplaced = roundNesting t := rfl
      by_cases h : depth = 0 ∧ (t.text = "," ∨ t.text = closingBrace)
      · simp [skipInitialiser, h]
      · simp only [List.map_cons, skipInitialiser, if_neg h, hnesting, ih]

theorem readEnumMember_unplaced (path enumName : String) (start : Token) (ts : List Token) :
    readEnumMember path enumName start.unplaced (unplaceAll ts) =
      erased (beforeRest id) (readEnumMember path enumName start ts) := by
  refine erased_bind (readSections_unplaced path ts) ?_
  rintro ⟨attributes, afterSections⟩ _
  refine erased_bind (nextToken_unplaced afterSections) ?_
  rintro ⟨member, afterMember⟩ _
  simp only [Prod.map_apply]
  by_cases hkind : member.kind = .identifier
  · simp only [hkind, if_true, skipInitialiser_unplaced]
    cases skipInitialiser 0 afterMember with
    | none => rfl
    | some rest => simp [pure, Except.pure]
  · simp [hkind, at_unplaced]

theorem readEnumMembers_unplaced (path enumName : String) (start : Token) (ts : List Token) :
    readEnumMembers path enumName start.unplaced (unplaceAll ts) =
      erased (beforeRest id) (readEnumMembers path enumName start ts) := by
  rw [readEnumMembers_eq, readEnumMembers_eq path enumName start ts, headIs_unplaced, drop_unplaced]
  split
  · rfl
  · refine erased_bind (readEnumMember_unplaced path enumName start ts) ?_
    rintro ⟨member, rest⟩ h
    refine erased_bind (readEnumMembers_unplaced path enumName start rest) ?_
    rintro ⟨more, rest⟩ _
    rfl
  termination_by ts.length
  decreasing_by exact readEnumMember_length_lt h

theorem dropWhile_unplaced (p : Token → Bool) (h : ∀ t, p t.unplaced = p t) (ts : List Token) :
    (unplaceAll ts).dropWhile p = unplaceAll (ts.dropWhile p) := by
  rw [List.dropWhile_map]
  have hp : p ∘ Token.unplaced = p := funext h
  rw [hp]

/-- A name and members in front of the tokens that remain. -/
abbrev beforeRest₂ : String × List String × List Token → String × List String × List Token :=
  Prod.map id (beforeRest id)

theorem readEnumBody_unplaced (path : String) (start : Token) (ts : List Token) :
    readEnumBody path start.unplaced (unplaceAll ts) =
      erased beforeRest₂ (readEnumBody path start ts) := by
  refine erased_bind (nextToken_unplaced ts) ?_
  rintro ⟨name, afterName⟩ _
  simp only [Prod.map_apply]
  rw [dropWhile_unplaced _ fun _ => rfl]
  refine erased_bind (nextToken_unplaced _) ?_
  rintro ⟨brace, body⟩ _
  refine erased_bind (readEnumMembers_unplaced path name.plain start body) ?_
  rintro ⟨members, rest⟩ _
  rfl

/-! ### Types, constants and members -/

theorem skipRecordKind_unplaced (kind : String) (ts : List Token) :
    skipRecordKind kind (unplaceAll ts) = unplaceAll (skipRecordKind kind ts) := by
  simp only [skipRecordKind, headIs_unplaced, drop_unplaced]
  split
  · split <;> rfl
  · rfl

theorem headerEnd_unplaced (depth : Int) (ts : List Token) :
    headerEnd depth (unplaceAll ts) = (headerEnd depth ts).map (beforeRest Token.unplaced) := by
  induction ts generalizing depth with
  | nil => rfl
  | cons t rest ih =>
      have hnesting : headerNesting t.unplaced = headerNesting t := rfl
      by_cases h : depth = 0 ∧ (t.text = openingBrace ∨ t.text = ";")
      · simp [headerEnd, h]
      · simp only [List.map_cons, headerEnd, if_neg h, hnesting, ih]

theorem readTypeHeader_unplaced (kind : String) (start : Token) (ts : List Token) :
    readTypeHeader kind start.unplaced (unplaceAll ts) =
      erased (beforeRest id) (readTypeHeader kind start ts) := by
  rw [readTypeHeader, readTypeHeader, skipRecordKind_unplaced]
  refine erased_bind (nextToken_unplaced _) ?_
  rintro ⟨name, afterName⟩ _
  simp only [Prod.map_apply, headerEnd_unplaced]
  cases headerEnd 0 afterName <;> rfl

theorem constantOf_unplaced (declarator : List Token) :
    constantOf (unplaceAll declarator) = constantOf declarator := by
  have hequals : (fun t : Token => !(t.text == "=")) ∘ Token.unplaced =
      fun t : Token => !(t.text == "=") := rfl
  simp only [constantOf, List.takeWhile_map, List.dropWhile_map, List.getLast?_map, hequals]
  cases (declarator.takeWhile fun t => !(t.text == "=")).getLast? with
  | none => rfl
  | some name =>
      cases declarator.dropWhile fun t => !(t.text == "=") with
      | nil => rfl
      | cons equals initialiser => simp only [Option.map_some, List.map_cons, evaluate_unplaced,
          plain_unplaced]

theorem constantsOf_unplaced (declarators : List (List Token)) :
    constantsOf (declarators.map unplaceAll) = constantsOf declarators := by
  have hcomp : constantOf ∘ unplaceAll = constantOf := funext constantOf_unplaced
  rw [constantsOf, constantsOf, List.mapM_map, hcomp]

theorem readConstants_unplaced (ts : List Token) :
    readConstants (unplaceAll ts) = erased (beforeRest id) (readConstants ts) := by
  refine erased_bind (takeStatement_unplaced ts) ?_
  rintro ⟨inside, rest⟩ _
  simp only [Prod.map_apply, splitArguments_unplaced, constantsOf_unplaced]
  cases constantsOf (splitArguments inside) <;> rfl

theorem memberHeader_unplaced (depth : Int) (ts : List Token) :
    memberHeader depth (unplaceAll ts) =
      (memberHeader depth ts).map (Prod.map unplaceAll (beforeRest Token.unplaced)) := by
  induction ts generalizing depth with
  | nil => rfl
  | cons t rest ih =>
      have hnesting : roundNesting t.unplaced = roundNesting t := rfl
      have hends : endsMemberHeader t.unplaced = endsMemberHeader t := rfl
      by_cases h : depth = 0 ∧ endsMemberHeader t
      · simp [memberHeader, h, hends]
      · simp only [List.map_cons, memberHeader, hends, if_neg h, hnesting, ih]
        cases memberHeader (depth + roundNesting t) rest <;> rfl

theorem anyText_unplaced (text : String) (ts : List Token) :
    (unplaceAll ts).any (·.text == text) = ts.any (·.text == text) := by
  rw [List.any_map]
  rfl

theorem propertyOf_unplaced (header : List Token) (modifiers : List String) :
    propertyOf (unplaceAll header) modifiers = propertyOf header modifiers := by
  simp only [propertyOf, anyText_unplaced, ← List.map_reverse]
  match header.reverse with
  | [] => rfl
  | [_] => rfl
  | name :: beforeName :: _ =>
      have htext : joinTokens (unplaceAll header).dropLast = joinTokens header.dropLast := by
        rw [← List.map_dropLast, joinTokens_unplaced]
      simp [isNameMark, htext]

theorem skipAfterBraces_unplaced (header : List Token) (isProperty : Bool) (ts : List Token) :
    skipAfterBraces (unplaceAll header) isProperty (unplaceAll ts) =
      erased unplaceAll (skipAfterBraces header isProperty ts) := by
  simp only [skipAfterBraces, anyText_unplaced, headIs_unplaced]
  split
  · refine erased_bind (takeStatement_unplaced ts) ?_
    rintro ⟨inside, rest⟩ _
    rfl
  · rfl

theorem readMember_unplaced (modifiers : List String) (ts : List Token) :
    readMember modifiers (unplaceAll ts) = erased (beforeRest id) (readMember modifiers ts) := by
  rw [readMember, readMember, memberHeader_unplaced]
  cases memberHeader 0 ts with
  | none => rfl
  | some found =>
      obtain ⟨header, stop, rest⟩ := found
      simp only [Option.map_some, Prod.map_apply, propertyOf_unplaced]
      split
      · rfl
      · split
        · rfl
        · split
          · refine erased_bind (takeGroup_unplaced openingBrace closingBrace (stop :: rest)) ?_
            rintro ⟨inside, afterBraces⟩ _
            refine erased_bind (skipAfterBraces_unplaced header _ afterBraces) ?_
            intro rest _
            rfl
          · exact takeRest_unplaced _ (takeStatement_unplaced rest)

/-! ### Declarations and walks without places -/

/-- An enum without its place and the places of its attributes. -/
def EnumDeclaration.unplaced (e : EnumDeclaration) : EnumDeclaration :=
  { e with attributes := e.attributes.map Attribute.unplaced, location := e.location.unplaced }

/-- A type without its place. -/
def TypeDeclaration.unplaced (t : TypeDeclaration) : TypeDeclaration :=
  { t with location := t.location.unplaced }

/-- A file without the places of what it declares. -/
def SourceFile.unplaced (f : SourceFile) : SourceFile :=
  { f with
    enums := f.enums.map EnumDeclaration.unplaced
    types := f.types.map TypeDeclaration.unplaced }

/-- A scope without the places of what has been declared in it. -/
def Scope.unplaced (s : Scope) : Scope :=
  { s with
    owner := s.owner.map TypeDeclaration.unplaced
    enums := s.enums.map EnumDeclaration.unplaced
    types := s.types.map TypeDeclaration.unplaced }

/-- A walk without places. -/
def Walk.unplaced (w : Walk) : Walk :=
  { w with scope := w.scope.unplaced, outer := w.outer.map Scope.unplaced }

theorem closedTypes_unplaced (s : Scope) :
    s.unplaced.closedTypes = s.closedTypes.map TypeDeclaration.unplaced := by
  simp only [Scope.closedTypes, Scope.unplaced]
  cases s.owner <;> rfl

theorem absorb_unplaced (s inside : Scope) :
    s.unplaced.absorb inside.unplaced = (s.absorb inside).unplaced := by
  rw [Scope.absorb, closedTypes_unplaced]
  simp [Scope.absorb, Scope.unplaced]

theorem close?_unplaced (w : Walk) : w.unplaced.close? = w.close?.map Walk.unplaced := by
  obtain ⟨scope, outer, globalUsings⟩ := w
  cases outer with
  | nil => rfl
  | cons s outer => simp [Walk.close?, Walk.unplaced, absorb_unplaced]

theorem declareEnum_unplaced (w : Walk) (path : String) (start : Token)
    (attributes : List Attribute) (modifiers : List String) (ts : List Token) :
    w.unplaced.declareEnum path start.unplaced (attributes.map Attribute.unplaced) modifiers
        (unplaceAll ts) =
      erased (beforeRest Walk.unplaced) (w.declareEnum path start attributes modifiers ts) := by
  refine erased_bind (readEnumBody_unplaced path start ts) ?_
  rintro ⟨name, members, rest⟩ _
  simp [Walk.update, Walk.unplaced, Scope.unplaced, EnumDeclaration.unplaced, location_unplaced,
    Scope.inType, pure, Except.pure]

theorem declareType_unplaced (w : Walk) (path kind : String) (start : Token)
    (modifiers : List String) (ts : List Token) :
    w.unplaced.declareType path kind start.unplaced modifiers (unplaceAll ts) =
      erased (beforeRest Walk.unplaced) (w.declareType path kind start modifiers ts) := by
  refine erased_bind (readTypeHeader_unplaced kind start ts) ?_
  rintro ⟨header, rest⟩ _
  simp only [Prod.map_apply, id_eq]
  split
  · rfl
  · simp [Walk.update, Walk.unplaced, Scope.unplaced, TypeDeclaration.unplaced, location_unplaced,
      Scope.inType, pure, Except.pure]

theorem declareNamespace_unplaced (w : Walk) (ts : List Token) :
    w.unplaced.declareNamespace (unplaceAll ts) =
      erased (beforeRest Walk.unplaced) (w.declareNamespace ts) := by
  refine erased_bind (qualifiedName_unplaced ts) ?_
  rintro ⟨name, afterName⟩ _
  simp only [Prod.map_apply, id_eq, headIs_unplaced]
  split
  · rw [drop_unplaced]
    rfl
  · refine erased_bind (expect_unplaced openingBrace afterName) ?_
    intro rest _
    rfl

theorem declareUsing_unplaced (w : Walk) (ts : List Token) :
    w.unplaced.declareUsing (unplaceAll ts) =
      erased (beforeRest Walk.unplaced) (w.declareUsing ts) := by
  refine erased_bind (readUsing_unplaced ts) ?_
  rintro ⟨name, rest⟩ _
  rfl

theorem declareGlobalUsing_unplaced (w : Walk) (ts : List Token) :
    w.unplaced.declareGlobalUsing (unplaceAll ts) =
      erased (beforeRest Walk.unplaced) (w.declareGlobalUsing ts) := by
  refine erased_bind (readUsing_unplaced ts) ?_
  rintro ⟨name, rest⟩ _
  rfl

theorem declareConstants_unplaced (w : Walk) (ts : List Token) :
    w.unplaced.declareConstants (unplaceAll ts) =
      erased (beforeRest Walk.unplaced) (w.declareConstants ts) := by
  refine erased_bind (readConstants_unplaced ts) ?_
  rintro ⟨constants, rest⟩ _
  rfl

theorem declareMember_unplaced (w : Walk) (modifiers : List String) (ts : List Token) :
    w.unplaced.declareMember modifiers (unplaceAll ts) =
      erased (beforeRest Walk.unplaced) (w.declareMember modifiers ts) := by
  refine erased_bind (readMember_unplaced modifiers ts) ?_
  rintro ⟨property, rest⟩ _
  rfl

theorem declareHead_unplaced (w : Walk) (path : String) (start head : Token)
    (attributes : List Attribute) (modifiers : List String) (ts : List Token) :
    w.unplaced.declareHead path start.unplaced (attributes.map Attribute.unplaced) modifiers
        head.unplaced (unplaceAll ts) =
      erased (beforeRest Walk.unplaced)
        (w.declareHead path start attributes modifiers head ts) := by
  have hinType : w.unplaced.scope.inType = w.scope.inType := rfl
  simp only [Walk.declareHead, hinType, headIs_unplaced, drop_unplaced]
  split
  · exact declareGlobalUsing_unplaced w (ts.drop 1)
  · split
    · exact declareUsing_unplaced w ts
    · split
      · exact declareNamespace_unplaced w ts
      · split
        · exact declareEnum_unplaced w path start attributes modifiers ts
        · split
          · exact declareType_unplaced w path head.text start modifiers ts
          · split
            · refine erased_bind (takeStatement_unplaced ts) ?_
              rintro ⟨inside, rest⟩ _
              rfl
            · split
              · exact declareConstants_unplaced w (head :: ts)
              · exact declareMember_unplaced w modifiers (head :: ts)

theorem declare_unplaced (w : Walk) (path : String) (start : Token) (ts : List Token) :
    w.unplaced.declare path start.unplaced (unplaceAll ts) =
      erased (beforeRest Walk.unplaced) (w.declare path start ts) := by
  refine erased_bind (readSections_unplaced path (start :: ts)) ?_
  rintro ⟨attributes, afterSections⟩ _
  simp only [Prod.map_apply, readModifiers_unplaced]
  obtain ⟨modifiers, afterModifiers⟩ := readModifiers afterSections
  cases afterModifiers with
  | nil => rfl
  | cons head rest => exact declareHead_unplaced w path start head attributes modifiers rest

/-! ### The whole file -/

/-- **The walk** commutes with taking out places. -/
theorem run_unplaced (path : String) (w : Walk) (ts : List Token) :
    Walk.run path w.unplaced (unplaceAll ts) = erased Walk.unplaced (Walk.run path w ts) := by
  match ts with
  | [] =>
      have houter : w.unplaced.outer.isEmpty = w.outer.isEmpty := List.isEmpty_map
      simp only [List.map_nil, Walk.run, houter]
      split <;> rfl
  | t :: rest =>
      -- a closing brace, a semicolon, or a declaration
      simp only [List.map_cons, Walk.run_cons, close?_unplaced]
      split
      · cases hclose : w.close? with
        | none => rfl
        | some closed => exact run_unplaced path closed rest
      · split
        · exact run_unplaced path w rest
        · refine erased_bind (declare_unplaced w path t rest) ?_
          rintro ⟨next, remaining⟩ hnext
          exact run_unplaced path next remaining
  termination_by ts.length
  decreasing_by
    · exact Walk.declare_length_lt ‹¬t.text = closingBrace› hnext
    · exact Nat.lt_succ_self _
    · exact Nat.lt_succ_self _

/-- An error of a file without the line it was found at. -/
def ParseError.unplaced : ParseError → ParseError
  | .malformed path _ cause => .malformed path 0 cause
  | .escape e => .escape e

theorem inFile_unplaced (path : String) (ts : List Token) (e : Fault) :
    (e.unplaced.inFile path (unplaceAll ts)).unplaced = (e.inFile path ts).unplaced := by
  cases e <;> rfl

/-- The outcome of reading a file without places. -/
def unplacedFile : Except ParseError SourceFile → Except ParseError SourceFile
  | .ok f => .ok f.unplaced
  | .error e => .error e.unplaced

/-- **The whole reading** of tokens depends on their places in what it says of places only. -/
theorem readTokens_unplaced (path : String) (ts : List Token) :
    unplacedFile (readTokens path (unplaceAll ts)) = unplacedFile (readTokens path ts) := by
  have hrun := run_unplaced path .start ts
  have hstart : Walk.start.unplaced = Walk.start := rfl
  rw [hstart] at hrun
  simp only [readTokens, hrun]
  cases Walk.run path .start ts with
  | error e => exact congrArg Except.error (inFile_unplaced path ts e)
  | ok w =>
      have htypes : ∀ t : TypeDeclaration, t.unplaced.unplaced = t.unplaced := fun _ => rfl
      have hattributes : ∀ a : Attribute, a.unplaced.unplaced = a.unplaced := by
        rintro ⟨name, positional, named, location⟩
        cases location <;> rfl
      have henums : ∀ e : EnumDeclaration, e.unplaced.unplaced = e.unplaced := by
        intro e
        simp [EnumDeclaration.unplaced, hattributes, Function.comp_def, SourceLocation.unplaced]
      simp [unplacedFile, SourceFile.unplaced, Walk.result, Walk.unplaced, Scope.unplaced, htypes,
        henums, Function.comp_def]

theorem result_unplaced (w : Walk) (path : String) :
    w.unplaced.result path = (w.result path).unplaced := rfl

/-- What a text declares, but for the places, is found from its tokens without their places. -/
theorem readSource_of_run {path text : String} {w : Walk}
    (h : Walk.run path .start (bareTokens text.toList) = .ok w) :
    ∃ file, readSource path text = .ok file ∧ file.unplaced = w.result path := by
  have hrun := run_unplaced path .start (tokenise text)
  rw [show Walk.start.unplaced = Walk.start from rfl,
    show unplaceAll (tokenise text) = bareTokens text.toList from rfl, h] at hrun
  cases hread : Walk.run path .start (tokenise text) with
  | error e =>
      rw [hread] at hrun
      cases hrun
  | ok placed =>
      rw [hread] at hrun
      cases hrun
      exact ⟨placed.result path, readTokens_eq_ok.2 ⟨placed, hread, rfl⟩,
        (result_unplaced placed path).symm⟩

/-- A text that is read is read from its tokens without their places. -/
theorem run_of_readSource {path text : String} {file : SourceFile}
    (h : readSource path text = .ok file) :
    ∃ w, Walk.run path .start (bareTokens text.toList) = .ok w ∧ file.unplaced = w.result path := by
  obtain ⟨placed, hplaced, rfl⟩ := readTokens_eq_ok.1 h
  have hrun := run_unplaced path .start (tokenise text)
  rw [hplaced] at hrun
  exact ⟨placed.unplaced, hrun, (result_unplaced placed path).symm⟩

/-- A text is refused for the fault that is found in its tokens without their places. -/
theorem readSource_of_fault {path text : String} {cause : FaultCause} {line : Option Nat}
    (h : Walk.run path .start (bareTokens text.toList) = .error (.malformed cause line)) :
    ∃ line', readSource path text = .error (.malformed path line' cause) := by
  have hrun := run_unplaced path .start (tokenise text)
  rw [show Walk.start.unplaced = Walk.start from rfl,
    show unplaceAll (tokenise text) = bareTokens text.toList from rfl, h] at hrun
  cases hplaced : Walk.run path .start (tokenise text) with
  | ok placed =>
      rw [hplaced] at hrun
      cases hrun
  | error e =>
      rw [hplaced] at hrun
      cases e with
      | escape e => cases hrun
      | malformed cause' line' =>
          cases hrun
          exact ⟨line'.getD (lastLine (tokenise text)), readTokens_eq_error.2 ⟨_, hplaced, rfl⟩⟩

end LocalisedEnum
