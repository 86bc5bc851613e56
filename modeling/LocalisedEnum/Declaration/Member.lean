import LocalisedEnum.Declaration.AttributeList

/-!
**The parts of a declaration.**

Behind its attributes and modifiers a declaration is an import, an enum, the header of a type, a
list of constants, or a member.  Of a member only a property leaves a trace; bodies and initialisers
are passed over.

Main definitions:

* `readModifiers`, `readUsing` — modifiers and imports;
* `readEnumMembers`, `readEnumBody` — the members of an enum, and the enum without its header;
* `readTypeHeader` — what precedes the body of a type;
* `readConstants` — the string constants of a declaration of constants;
* `readMember` — a member, and the property that it may be;
* `MemberEnding` — what a member is, by the token that ends its header.

Main results:

* `readMember_eq_ok` — a member is its header and what the token behind it leads to;
* one lemma for each function, saying that it takes a token off the front or leaves the tokens
  alone.
-/

set_option autoImplicit false
set_option relaxedAutoImplicit false

namespace LocalisedEnum

/-! ### Modifiers -/

/-- The words that may stand in front of a declaration. -/
def modifierWords : List String :=
  ["public", "private", "protected", "internal", "static", "sealed", "abstract", "partial",
   "readonly", "new", "unsafe", "extern", "virtual", "override", "async", "volatile", "const",
   "required", "file", "ref", "fixed"]

/-- A modifier. -/
def isModifier (t : Token) : Bool :=
  modifierWords.contains t.text

/-- The modifiers at the front, and what follows them. -/
def readModifiers (ts : List Token) : List String × List Token :=
  ((ts.takeWhile isModifier).map Token.text, ts.dropWhile isModifier)

theorem dropWhile_shrinks {α : Type} (p : α → Bool) (xs : List α) :
    xs.dropWhile p = xs ∨ (xs.dropWhile p).length < xs.length := by
  cases xs with
  | nil => exact Or.inl rfl
  | cons x xs =>
    cases hx : p x with
    | false => left; simp [List.dropWhile, hx]
    | true =>
      right
      have := (List.dropWhile_sublist p : (xs.dropWhile p).Sublist xs).length_le
      simp only [List.dropWhile, hx, List.length_cons]
      omega

theorem readModifiers_shrinks (ts : List Token) :
    (readModifiers ts).2 = ts ∨ (readModifiers ts).2.length < ts.length :=
  dropWhile_shrinks isModifier ts

/-! ### Imports -/

/-- The namespace that an import names, behind its keyword.  Aliases, static imports and statements
that begin with the same keyword are passed over. -/
def readUsing (ts : List Token) : Except Fault (Option String × List Token) :=
  if headIs "(" ts then do
    let (_, rest) ← takeGroup "(" ")" ts
    return (none, rest)
  else if headIs "static" ts || headIs "=" (ts.drop 1) then do
    let (_, rest) ← takeStatement ts
    return (none, rest)
  else do
    let (name, afterName) ← qualifiedName ts
    if headIs ";" afterName then
      return (some (withoutStart globalMark name), afterName.drop 1)
    else
      let (_, rest) ← takeStatement afterName
      return (none, rest)

theorem readUsing_length_lt {name : Option String} {ts rest : List Token}
    (h : readUsing ts = .ok (name, rest)) : rest.length < ts.length := by
  simp only [readUsing] at h
  split at h
  · obtain ⟨⟨inside, rest'⟩, h1, h⟩ := bind_eq_ok.1 h
    cases h; exact takeGroup_length_lt h1
  · split at h
    · obtain ⟨⟨inside, rest'⟩, h1, h⟩ := bind_eq_ok.1 h
      cases h; exact takeStatement_length_lt h1
    · obtain ⟨⟨name', afterName⟩, h1, h⟩ := bind_eq_ok.1 h
      have h1 := qualifiedName_length_lt h1
      simp only at h
      split at h
      · cases h
        simp only [List.length_drop]
        omega
      · obtain ⟨⟨inside, rest'⟩, h2, h⟩ := bind_eq_ok.1 h
        cases h
        exact Nat.lt_trans (takeStatement_length_lt h2) h1

/-! ### Enums -/

/-- How a token changes the depth of nesting in an initialiser or the header of a member. -/
def roundNesting (t : Token) : Int :=
  if ["(", "["].contains t.text then 1
  else if [")", "]"].contains t.text then -1
  else 0

/-- The tokens from the comma or brace that ends the initialiser of an enum member. -/
def skipInitialiser (depth : Int) : List Token → Option (List Token)
  | [] => none
  | t :: rest =>
    if depth = 0 ∧ (t.text = "," ∨ t.text = closingBrace) then some (t :: rest)
    else skipInitialiser (depth + roundNesting t) rest

theorem skipInitialiser_length_le {depth : Int} {ts rest : List Token}
    (h : skipInitialiser depth ts = some rest) : rest.length ≤ ts.length := by
  induction ts generalizing depth with
  | nil => cases h
  | cons t ts ih =>
    simp only [skipInitialiser] at h
    split at h
    · cases h; exact Nat.le_refl _
    · exact Nat.le_succ_of_le (ih h)

/-- One member of an enum, without its attributes and its initialiser.  A comma after it is taken
too. -/
def readEnumMember (path enumName : String) (start : Token) (ts : List Token) :
    Except Fault (String × List Token) := do
  let (_, afterSections) ← readSections path ts
  let (member, afterMember) ← nextToken afterSections
  if member.kind = .identifier then
    match skipInitialiser 0 afterMember with
    | some rest => return (member.plain, skip "," rest)
    | none => .error (.at (.unterminatedEnum enumName) start)
  else .error (.at (.notAMember member.text enumName) member)

theorem readEnumMember_length_lt {path enumName name : String} {start : Token}
    {ts rest : List Token} (h : readEnumMember path enumName start ts = .ok (name, rest)) :
    rest.length < ts.length := by
  obtain ⟨⟨attributes, afterSections⟩, h1, h⟩ := bind_eq_ok.1 h
  obtain ⟨⟨member, afterMember⟩, h2, h⟩ := bind_eq_ok.1 h
  simp only at h
  split at h
  · split at h
    · next rest' heq =>
      cases h
      have h1 := readSections_length_le h1
      have h2 := nextToken_length_lt h2
      have h3 := skipInitialiser_length_le heq
      have h4 := skip_length_le "," rest'
      omega
    · cases h
  · cases h

/-- The members of an enum up to the brace that closes it, and what follows that. -/
def readEnumMembers (path enumName : String) (start : Token) (ts : List Token) :
    Except Fault (List String × List Token) :=
  if headIs closingBrace ts then .ok ([], ts.drop 1)
  else
    match _h : readEnumMember path enumName start ts with
    | .error e => .error e
    | .ok (member, rest) =>
      match readEnumMembers path enumName start rest with
      | .error e => .error e
      | .ok (more, rest) => .ok (member :: more, rest)
  termination_by ts.length
  decreasing_by exact readEnumMember_length_lt _h

/-- The members of an enum, as a chain of steps. -/
theorem readEnumMembers_eq (path enumName : String) (start : Token) (ts : List Token) :
    readEnumMembers path enumName start ts =
      if headIs closingBrace ts then .ok ([], ts.drop 1)
      else do
        let (member, rest) ← readEnumMember path enumName start ts
        let (more, rest) ← readEnumMembers path enumName start rest
        return (member :: more, rest) := by
  rw [readEnumMembers]
  split
  · rfl
  · split
    · next he => rw [he]; rfl
    · next member rest hmember =>
      rw [hmember]
      cases hmore : readEnumMembers path enumName start rest with
      | error e => simp only [bind, Except.bind, hmore]
      | ok more => simp only [bind, Except.bind, hmore]; rfl

theorem readEnumMembers_length_lt {path enumName : String} {start : Token} {members : List String}
    {ts rest : List Token} (h : readEnumMembers path enumName start ts = .ok (members, rest)) :
    rest.length < ts.length := by
  fun_induction readEnumMembers path enumName start ts generalizing members with
  | case1 ts hhead => cases h; exact length_drop_one_lt_of_headIs hhead
  | case2 => cases h
  | case3 => cases h
  | case4 ts _ member rest hmember more rest' hmore ih =>
    cases h
    exact Nat.lt_trans (ih hmore) (readEnumMember_length_lt hmember)

/-- The name and the members of an enum, behind its keyword. -/
def readEnumBody (path : String) (start : Token) (ts : List Token) :
    Except Fault (String × List String × List Token) := do
  let (name, afterName) ← nextToken ts
  let (_, body) ← nextToken (afterName.dropWhile (·.text != openingBrace))
  let (members, rest) ← readEnumMembers path name.plain start body
  return (name.plain, members, rest)

theorem readEnumBody_length_lt {path name : String} {start : Token} {members : List String}
    {ts rest : List Token} (h : readEnumBody path start ts = .ok (name, members, rest)) :
    rest.length < ts.length := by
  obtain ⟨⟨nameToken, afterName⟩, h1, h⟩ := bind_eq_ok.1 h
  obtain ⟨⟨brace, body⟩, h2, h⟩ := bind_eq_ok.1 h
  obtain ⟨⟨members', rest'⟩, h3, h⟩ := bind_eq_ok.1 h
  cases h
  have h1 := nextToken_length_lt h1
  have h2 := nextToken_length_lt h2
  have h3 := readEnumMembers_length_lt h3
  have h4 := (List.dropWhile_sublist (·.text != openingBrace) :
      (List.dropWhile _ afterName).Sublist _).length_le
  omega

/-! ### Types -/

/-- The words that begin the declaration of a type. -/
def typeKeywords : List String := ["class", "struct", "interface", "record"]

/-- How a token changes the depth of nesting in the header of a type. -/
def headerNesting (t : Token) : Int :=
  if ["(", "<", "["].contains t.text then 1
  else if [")", ">", "]"].contains t.text then -1
  else 0

/-- The token that ends the header of a type, and what follows it. -/
def headerEnd (depth : Int) : List Token → Option (Token × List Token)
  | [] => none
  | t :: rest =>
    if depth = 0 ∧ (t.text = openingBrace ∨ t.text = ";") then some (t, rest)
    else headerEnd (depth + headerNesting t) rest

theorem headerEnd_length_lt {depth : Int} {ts rest : List Token} {stop : Token}
    (h : headerEnd depth ts = some (stop, rest)) : rest.length < ts.length := by
  induction ts generalizing depth with
  | nil => cases h
  | cons t ts ih =>
    simp only [headerEnd] at h
    split at h
    · cases h; exact Nat.lt_succ_self _
    · exact Nat.lt_succ_of_lt (ih h)

/-- The header of a type: its name, and whether a body follows. -/
structure TypeHeader where
  name : String
  hasBody : Bool
  deriving DecidableEq, Repr

/-- The tokens without the word that tells a record class from a record struct. -/
def skipRecordKind (kind : String) (ts : List Token) : List Token :=
  if kind = "record" then
    if headIs "class" ts || headIs "struct" ts then ts.drop 1 else ts
  else ts

theorem skipRecordKind_length_le (kind : String) (ts : List Token) :
    (skipRecordKind kind ts).length ≤ ts.length := by
  simp only [skipRecordKind]
  split
  · split
    · simp only [List.length_drop]; omega
    · exact Nat.le_refl _
  · exact Nat.le_refl _

/-- The header of a type behind its keyword, and what follows it: the body, or the next
declaration. -/
def readTypeHeader (kind : String) (start : Token) (ts : List Token) :
    Except Fault (TypeHeader × List Token) := do
  let (name, afterName) ← nextToken (skipRecordKind kind ts)
  match headerEnd 0 afterName with
  | some (stop, rest) => return (⟨name.plain, stop.text != ";"⟩, rest)
  | none => .error (.at (.missingBody name.plain) start)

theorem readTypeHeader_length_lt {kind : String} {start : Token} {header : TypeHeader}
    {ts rest : List Token} (h : readTypeHeader kind start ts = .ok (header, rest)) :
    rest.length < ts.length := by
  obtain ⟨⟨name, afterName⟩, h1, h⟩ := bind_eq_ok.1 h
  simp only at h
  split at h
  · next stop rest' heq =>
    cases h
    have h1 := nextToken_length_lt h1
    have h2 := headerEnd_length_lt heq
    have h3 := skipRecordKind_length_le kind ts
    omega
  · cases h

/-! ### Constants -/

/-- The string constant that one declarator introduces, if its value is a string. -/
def constantOf (declarator : List Token) :
    Except EscapeError (Option (String × CodeText)) :=
  let isEquals (t : Token) := t.text == "="
  match (declarator.takeWhile (!isEquals ·)).getLast?, declarator.dropWhile (!isEquals ·) with
  | some name, _ :: initialiser => do
    match ← evaluate initialiser with
    | .text value => return some (name.plain, value)
    | _ => return none
  | _, _ => .ok none

/-- The string constants of several declarators, by name. -/
def constantsOf (declarators : List (List Token)) :
    Except EscapeError (List (String × CodeText)) := do
  let found ← declarators.mapM constantOf
  return ofAssignments (found.filterMap id)

/-- The string constants of the declaration at the front, by name. -/
def readConstants (ts : List Token) :
    Except Fault (List (String × CodeText) × List Token) := do
  let (inside, rest) ← takeStatement ts
  let constants ← orEscapeFault (constantsOf (splitArguments inside))
  return (constants, rest)

theorem readConstants_length_lt {constants : List (String × CodeText)} {ts rest : List Token}
    (h : readConstants ts = .ok (constants, rest)) : rest.length < ts.length := by
  obtain ⟨⟨inside, rest'⟩, h1, h⟩ := bind_eq_ok.1 h
  obtain ⟨constants', h2, h⟩ := bind_eq_ok.1 h
  cases h
  exact takeStatement_length_lt h1

/-! ### Members -/

/-- A token that ends the header of a member. -/
def endsMemberHeader (t : Token) : Bool :=
  [";", openingBrace, "=>", closingBrace].contains t.text

/-- The header of the member at the front, the token that ends it, and what follows. -/
def memberHeader (depth : Int) : List Token → Option (List Token × Token × List Token)
  | [] => none
  | t :: rest =>
    if depth = 0 ∧ endsMemberHeader t then some ([], t, rest)
    else (memberHeader (depth + roundNesting t) rest).map fun (header, stop, rest) =>
      (t :: header, stop, rest)

theorem memberHeader_length {depth : Int} {ts header rest : List Token} {stop : Token}
    (h : memberHeader depth ts = some (header, stop, rest)) :
    ts.length = header.length + 1 + rest.length := by
  induction ts generalizing depth header with
  | nil => cases h
  | cons t ts ih =>
    simp only [memberHeader] at h
    split at h
    · cases h; simp; omega
    · obtain ⟨⟨header', stop', rest'⟩, hp, he⟩ := Option.map_eq_some_iff.1 h
      cases he
      have : ts.length = header'.length + 1 + rest'.length := ih hp
      simp only [List.length_cons]
      omega

/-- The property that a header declares: a type and a name, without parameters or an initialiser. -/
def propertyOf (header : List Token) (modifiers : List String) : Option PropertyDeclaration :=
  match header.reverse with
  | name :: beforeName :: _ =>
    let has (text : String) := header.any (·.text == text)
    if name.kind = .identifier && !has "(" && !has "=" && !has "event" &&
        !isNameMark beforeName then
      some ⟨name.plain, joinTokens header.dropLast, modifiers.contains "static"⟩
    else none
  | _ => none

/-- What follows the braces of a member: an initialiser of a field or of a property is passed
over. -/
def skipAfterBraces (header : List Token) (isProperty : Bool) (ts : List Token) :
    Except Fault (List Token) :=
  if header.any (·.text == "=") || (isProperty && headIs "=" ts) then do
    let (_, rest) ← takeStatement ts
    return rest
  else .ok ts

/-- The member at the front, and the property that it may be.  A closing brace behind the header is
left for the block that it closes. -/
def readMember (modifiers : List String) (ts : List Token) :
    Except Fault (Option PropertyDeclaration × List Token) :=
  match memberHeader 0 ts with
  | none => .error (.malformed .truncatedMember none)
  | some (header, stop, rest) =>
    let property := propertyOf header modifiers
    if stop.text = closingBrace then .ok (none, stop :: rest)
    else if stop.text = ";" then .ok (none, rest)
    else if stop.text = openingBrace then do
      let (_, afterBraces) ← takeGroup openingBrace closingBrace (stop :: rest)
      let rest ← skipAfterBraces header property.isSome afterBraces
      return (property, rest)
    else do
      let (_, rest) ← takeStatement rest
      return (property, rest)

theorem skipAfterBraces_length_le {header ts rest : List Token} {isProperty : Bool}
    (h : skipAfterBraces header isProperty ts = .ok rest) : rest.length ≤ ts.length := by
  simp only [skipAfterBraces] at h
  split at h
  · obtain ⟨⟨inside, rest'⟩, h1, h⟩ := bind_eq_ok.1 h
    cases h
    exact Nat.le_of_lt (takeStatement_length_lt h1)
  · cases h; exact Nat.le_refl _

theorem memberHeader_nil {depth : Int} {t stop : Token} {ts rest : List Token}
    (h : memberHeader depth (t :: ts) = some ([], stop, rest)) : stop = t := by
  simp only [memberHeader] at h
  split at h
  · cases h; rfl
  · obtain ⟨⟨header', stop', rest'⟩, _, he⟩ := Option.map_eq_some_iff.1 h
    cases he

/-- **What a member is**, by the token that ends its header: the property that it may be, and the
tokens that remain behind it. -/
inductive MemberEnding (modifiers : List String) (header : List Token) (stop : Token)
    (afterStop : List Token) : Option PropertyDeclaration → List Token → Prop
  | block (hstop : stop.text = closingBrace) :
      MemberEnding modifiers header stop afterStop none (stop :: afterStop)
  | semicolon (hstop : stop.text = ";") :
      MemberEnding modifiers header stop afterStop none afterStop
  | braces {inside afterBraces rest : List Token} (hstop : stop.text = openingBrace)
      (hgroup : takeGroup openingBrace closingBrace (stop :: afterStop) = .ok (inside, afterBraces))
      (hskip : skipAfterBraces header (propertyOf header modifiers).isSome afterBraces = .ok rest) :
      MemberEnding modifiers header stop afterStop (propertyOf header modifiers) rest
  | expression {inside rest : List Token} (hblock : stop.text ≠ closingBrace)
      (hsemicolon : stop.text ≠ ";") (hbraces : stop.text ≠ openingBrace)
      (hread : takeStatement afterStop = .ok (inside, rest)) :
      MemberEnding modifiers header stop afterStop (propertyOf header modifiers) rest

/-- **A member** is its header and what the token behind it leads to. -/
theorem readMember_eq_ok {modifiers : List String} {property : Option PropertyDeclaration}
    {ts rest : List Token} :
    readMember modifiers ts = .ok (property, rest) ↔
      ∃ header stop afterStop, memberHeader 0 ts = some (header, stop, afterStop) ∧
        MemberEnding modifiers header stop afterStop property rest := by
  constructor
  · intro h
    rw [readMember] at h
    split at h
    · cases h
    · next header stop afterStop hheader =>
      refine ⟨header, stop, afterStop, hheader, ?_⟩
      simp only at h
      split at h
      · next hblock =>
        cases h
        exact .block hblock
      · next hblock =>
        split at h
        · next hsemicolon =>
          cases h
          exact .semicolon hsemicolon
        · next hsemicolon =>
          split at h
          · next hbraces =>
            obtain ⟨⟨inside, afterBraces⟩, hgroup, h⟩ := bind_eq_ok.1 h
            obtain ⟨rest', hskip, h⟩ := bind_eq_ok.1 h
            cases h
            exact .braces hbraces hgroup hskip
          · next hbraces =>
            obtain ⟨⟨inside, rest'⟩, hread, h⟩ := bind_eq_ok.1 h
            cases h
            exact .expression hblock hsemicolon hbraces hread
  · rintro ⟨header, stop, afterStop, hheader, hending⟩
    rw [readMember, hheader]
    cases hending with
    | block hstop => exact if_pos hstop
    | semicolon hstop =>
        have hblock : stop.text ≠ closingBrace := by rw [hstop]; decide
        exact (if_neg hblock).trans (if_pos hstop)
    | braces hstop hgroup hskip =>
        have hblock : stop.text ≠ closingBrace := by rw [hstop]; decide
        have hsemicolon : stop.text ≠ ";" := by rw [hstop]; decide
        simp only [if_neg hblock, if_neg hsemicolon, if_pos hstop, hgroup, bind, Except.bind, hskip]
        rfl
    | expression hblock hsemicolon hbraces hread =>
        simp only [if_neg hblock, if_neg hsemicolon, if_neg hbraces, hread, bind, Except.bind]
        rfl

/-- A member takes the token that ends its header, unless this closes the block around it. -/
theorem MemberEnding.shrinks {modifiers : List String} {property : Option PropertyDeclaration}
    {header afterStop rest : List Token} {stop : Token}
    (h : MemberEnding modifiers header stop afterStop property rest) :
    stop.text = closingBrace ∧ rest = stop :: afterStop ∨ rest.length ≤ afterStop.length := by
  cases h with
  | block hstop => exact Or.inl ⟨hstop, rfl⟩
  | semicolon => exact Or.inr (Nat.le_refl _)
  | braces _ hgroup hskip =>
      have hgroup := takeGroup_length_lt hgroup
      have hskip := skipAfterBraces_length_le hskip
      exact Or.inr (Nat.le_trans hskip (Nat.le_of_lt_succ hgroup))
  | expression _ _ _ hread => exact Or.inr (Nat.le_of_lt (takeStatement_length_lt hread))

theorem readMember_length_le {modifiers : List String} {property : Option PropertyDeclaration}
    {ts rest : List Token} (h : readMember modifiers ts = .ok (property, rest)) :
    rest.length ≤ ts.length := by
  obtain ⟨header, stop, afterStop, hheader, hending⟩ := readMember_eq_ok.1 h
  have hlength := memberHeader_length hheader
  rcases hending.shrinks with ⟨_, rfl⟩ | hrest
  · simp only [List.length_cons]
    omega
  · omega

/-- Unless it begins with a closing brace, the member takes a token. -/
theorem readMember_length_lt {modifiers : List String} {property : Option PropertyDeclaration}
    {t : Token} {ts rest : List Token} (ht : t.text ≠ closingBrace)
    (h : readMember modifiers (t :: ts) = .ok (property, rest)) :
    rest.length < (t :: ts).length := by
  obtain ⟨header, stop, afterStop, hheader, hending⟩ := readMember_eq_ok.1 h
  have hlength := memberHeader_length hheader
  rcases hending.shrinks with ⟨hstop, rfl⟩ | hrest
  · cases header with
    | nil => exact absurd (memberHeader_nil hheader ▸ hstop) ht
    | cons =>
        simp only [List.length_cons] at hlength ⊢
        omega
  · omega

end LocalisedEnum
