import LocalisedEnum.Declaration.Member
import LocalisedEnum.Token.Lexer

/-!
**The walk over a source file.**

Declarations nest: namespaces hold types and enums, and types hold types and enums.  The walk keeps
the open scopes, innermost first, and what has been declared in each.  A declaration with a body
opens a scope; a closing brace closes the innermost one and hands its declarations to the scope
around it, so that they come in the order of the text, a type before what is nested in it.

Main definitions:

* `Scope` — an open namespace or type;
* `Walk` — the open scopes and the imports that hold for every file;
* `Walk.declare` — one declaration;
* `Walk.run` — the declarations up to the end of the tokens;
* `readSource` — the declarations of a text.

Main results:

* `Walk.declareHead_cases` — the kinds of declarations, as a case distinction;
* `Walk.declare_length_lt` — every declaration takes a token, so the walk ends;
* `readTokens_eq_ok`, `readTokens_eq_error` — what is read, and what is refused.
-/

set_option autoImplicit false
set_option relaxedAutoImplicit false

namespace LocalisedEnum

/-! ### Scopes -/

/-- An open scope.  `owner` is the type whose body it is, without what the body declares; a
namespace and the file itself have none. -/
structure Scope where
  owner : Option TypeDeclaration
  namespaceName : String
  containingTypes : List String
  usings : List String
  enums : List EnumDeclaration
  types : List TypeDeclaration
  properties : List PropertyDeclaration
  constants : List (String × CodeText)

/-- The scope of a file before anything has been declared. -/
def Scope.file : Scope :=
  ⟨none, "", [], [], [], [], [], []⟩

/-- The body of a type. -/
def Scope.inType (s : Scope) : Bool :=
  !s.containingTypes.isEmpty

/-- The name of a namespace that is declared in a scope. -/
def Scope.fullNamespace (s : Scope) (name : String) : String :=
  qualify s.namespaceName name

/-- The scope of a namespace block inside a scope; it sees the imports made so far. -/
def Scope.openNamespace (s : Scope) (name : String) : Scope :=
  { Scope.file with namespaceName := s.fullNamespace name, usings := s.usings }

/-- The scope of the body of a type inside a scope. -/
def Scope.openType (s : Scope) (t : TypeDeclaration) : Scope :=
  { Scope.file with
    owner := some t
    namespaceName := s.namespaceName
    containingTypes := s.containingTypes ++ [t.name]
    usings := s.usings }

/-- The types that a closed scope leaves behind: its owner with what its body declares, then the
nested ones. -/
def Scope.closedTypes (s : Scope) : List TypeDeclaration :=
  match s.owner with
  | some t => { t with properties := s.properties, constants := s.constants } :: s.types
  | none => s.types

/-- A scope with the declarations of a closed scope inside it. -/
def Scope.absorb (s inside : Scope) : Scope :=
  { s with enums := s.enums ++ inside.enums, types := s.types ++ inside.closedTypes }

/-! ### The state of a walk -/

/-- The open scopes, and the imports that hold for every file. -/
structure Walk where
  scope : Scope
  outer : List Scope
  globalUsings : List String

/-- The walk at the start of a file. -/
def Walk.start : Walk :=
  ⟨.file, [], []⟩

/-- Changes the innermost scope. -/
def Walk.update (w : Walk) (f : Scope → Scope) : Walk :=
  { w with scope := f w.scope }

/-- Opens a scope. -/
def Walk.enter (w : Walk) (s : Scope) : Walk :=
  { w with scope := s, outer := w.scope :: w.outer }

/-- Closes the innermost scope; the scope of the file stays open. -/
def Walk.close? (w : Walk) : Option Walk :=
  match w.outer with
  | [] => none
  | s :: outer => some { w with scope := s.absorb w.scope, outer := outer }

/-! ### One declaration -/

/-- An enum, behind its keyword. -/
def Walk.declareEnum (w : Walk) (path : String) (start : Token) (attributes : List Attribute)
    (modifiers : List String) (ts : List Token) : Except Fault (Walk × List Token) := do
  let (name, members, rest) ← readEnumBody path start ts
  let s := w.scope
  let declaration : EnumDeclaration :=
    { name := name
      namespaceName := s.namespaceName
      accessibility := .ofModifiers modifiers s.inType
      members := members
      attributes := attributes
      containingTypes := s.containingTypes
      location := start.location path
      usings := s.usings }
  return (w.update fun s => { s with enums := s.enums ++ [declaration] }, rest)

/-- A type, behind its keyword `kind`. -/
def Walk.declareType (w : Walk) (path kind : String) (start : Token) (modifiers : List String)
    (ts : List Token) : Except Fault (Walk × List Token) := do
  let (header, rest) ← readTypeHeader kind start ts
  let s := w.scope
  let declaration : TypeDeclaration :=
    { name := header.name
      namespaceName := s.namespaceName
      kind := kind
      accessibility := .ofModifiers modifiers s.inType
      properties := []
      containingTypes := s.containingTypes
      location := start.location path
      constants := [] }
  if header.hasBody then return (w.enter (s.openType declaration), rest)
  else return (w.update fun s => { s with types := s.types ++ [declaration] }, rest)

/-- A namespace, behind its keyword: a block, or the rest of the scope behind a semicolon. -/
def Walk.declareNamespace (w : Walk) (ts : List Token) : Except Fault (Walk × List Token) := do
  let (name, afterName) ← qualifiedName ts
  if headIs ";" afterName then
    return (w.update fun s => { s with namespaceName := s.fullNamespace name }, afterName.drop 1)
  else
    let rest ← expect openingBrace afterName
    return (w.enter (w.scope.openNamespace name), rest)

/-- An import, behind its keyword. -/
def Walk.declareUsing (w : Walk) (ts : List Token) : Except Fault (Walk × List Token) := do
  let (name, rest) ← readUsing ts
  return (w.update fun s => { s with usings := s.usings ++ name.toList }, rest)

/-- An import for every file, behind both its keywords. -/
def Walk.declareGlobalUsing (w : Walk) (ts : List Token) : Except Fault (Walk × List Token) := do
  let (name, rest) ← readUsing ts
  return ({ w with globalUsings := w.globalUsings ++ name.toList }, rest)

/-- Constants, which count in the body of a type. -/
def Walk.declareConstants (w : Walk) (ts : List Token) : Except Fault (Walk × List Token) := do
  let (constants, rest) ← readConstants ts
  return (w.update fun s => { s with constants := assignAll constants s.constants }, rest)

/-- A member, which counts when it is a property. -/
def Walk.declareMember (w : Walk) (modifiers : List String) (ts : List Token) :
    Except Fault (Walk × List Token) := do
  let (property, rest) ← readMember modifiers ts
  return (w.update fun s => { s with properties := s.properties ++ property.toList }, rest)

/-- The declaration whose attributes and modifiers have been read. -/
def Walk.declareHead (w : Walk) (path : String) (start : Token) (attributes : List Attribute)
    (modifiers : List String) (head : Token) (rest : List Token) :
    Except Fault (Walk × List Token) :=
  let atNamespaceLevel := !w.scope.inType
  if atNamespaceLevel && head.text == "global" && headIs "using" rest then
    w.declareGlobalUsing (rest.drop 1)
  else if atNamespaceLevel && head.text == "using" then w.declareUsing rest
  else if atNamespaceLevel && head.text == "namespace" then w.declareNamespace rest
  else if head.text == "enum" then w.declareEnum path start attributes modifiers rest
  else if typeKeywords.contains head.text then w.declareType path head.text start modifiers rest
  else if head.text == "delegate" then do
    let (_, rest) ← takeStatement rest
    return (w, rest)
  else if modifiers.contains "const" then w.declareConstants (head :: rest)
  else w.declareMember modifiers (head :: rest)

/-- The declaration that begins with the token `start`. -/
def Walk.declare (w : Walk) (path : String) (start : Token) (rest : List Token) :
    Except Fault (Walk × List Token) := do
  let (attributes, afterSections) ← readSections path (start :: rest)
  let (modifiers, afterModifiers) := readModifiers afterSections
  match afterModifiers with
  | [] => .error (.at .truncatedDeclaration start)
  | head :: rest => w.declareHead path start attributes modifiers head rest

/-! ### Every declaration takes a token -/

theorem Walk.declareEnum_length_lt {w w' : Walk} {path : String} {start : Token}
    {attributes : List Attribute} {modifiers : List String} {ts rest : List Token}
    (h : w.declareEnum path start attributes modifiers ts = .ok (w', rest)) :
    rest.length < ts.length := by
  obtain ⟨⟨name, members, rest'⟩, h1, h⟩ := bind_eq_ok.1 h
  cases h
  exact readEnumBody_length_lt h1

theorem Walk.declareType_length_lt {w w' : Walk} {path kind : String} {start : Token}
    {modifiers : List String} {ts rest : List Token}
    (h : w.declareType path kind start modifiers ts = .ok (w', rest)) :
    rest.length < ts.length := by
  obtain ⟨⟨header, rest'⟩, h1, h⟩ := bind_eq_ok.1 h
  simp only at h
  split at h
  · cases h; exact readTypeHeader_length_lt h1
  · cases h; exact readTypeHeader_length_lt h1

theorem Walk.declareNamespace_length_lt {w w' : Walk} {ts rest : List Token}
    (h : w.declareNamespace ts = .ok (w', rest)) : rest.length < ts.length := by
  obtain ⟨⟨name, afterName⟩, h1, h⟩ := bind_eq_ok.1 h
  have h1 : afterName.length < ts.length := qualifiedName_length_lt h1
  simp only at h
  split at h
  · cases h
    simp only [List.length_drop]
    omega
  · obtain ⟨rest', h2, h⟩ := bind_eq_ok.1 h
    cases h
    exact Nat.lt_trans (expect_length_lt h2) h1

theorem Walk.declareUsing_length_lt {w w' : Walk} {ts rest : List Token}
    (h : w.declareUsing ts = .ok (w', rest)) : rest.length < ts.length := by
  obtain ⟨⟨name, rest'⟩, h1, h⟩ := bind_eq_ok.1 h
  cases h
  exact readUsing_length_lt h1

theorem Walk.declareGlobalUsing_length_lt {w w' : Walk} {ts rest : List Token}
    (h : w.declareGlobalUsing ts = .ok (w', rest)) : rest.length < ts.length := by
  obtain ⟨⟨name, rest'⟩, h1, h⟩ := bind_eq_ok.1 h
  cases h
  exact readUsing_length_lt h1

theorem Walk.declareConstants_length_lt {w w' : Walk} {ts rest : List Token}
    (h : w.declareConstants ts = .ok (w', rest)) : rest.length < ts.length := by
  obtain ⟨⟨constants, rest'⟩, h1, h⟩ := bind_eq_ok.1 h
  cases h
  exact readConstants_length_lt h1

theorem Walk.declareMember_length_le {w w' : Walk} {modifiers : List String} {ts rest : List Token}
    (h : w.declareMember modifiers ts = .ok (w', rest)) : rest.length ≤ ts.length := by
  obtain ⟨⟨property, rest'⟩, h1, h⟩ := bind_eq_ok.1 h
  cases h
  exact readMember_length_le h1

theorem Walk.declareMember_length_lt {w w' : Walk} {modifiers : List String} {t : Token}
    {ts rest : List Token} (ht : t.text ≠ closingBrace)
    (h : w.declareMember modifiers (t :: ts) = .ok (w', rest)) :
    rest.length < (t :: ts).length := by
  obtain ⟨⟨property, rest'⟩, h1, h⟩ := bind_eq_ok.1 h
  cases h
  exact readMember_length_lt ht h1

/-- **The kinds of declarations**, told apart by the word behind the modifiers: what holds of each
as its own reader reads it holds of the declaration. -/
theorem Walk.declareHead_cases {w : Walk} {path : String} {start head : Token}
    {attributes : List Attribute} {modifiers : List String} {rest : List Token}
    {motive : Except Fault (Walk × List Token) → Prop}
    (importGlobally : w.scope.inType = false → head.text = "global" → headIs "using" rest = true →
      motive (w.declareGlobalUsing (rest.drop 1)))
    (importLocally : w.scope.inType = false → head.text = "using" → motive (w.declareUsing rest))
    (inNamespace : w.scope.inType = false → head.text = "namespace" →
      motive (w.declareNamespace rest))
    (enum : head.text = "enum" → motive (w.declareEnum path start attributes modifiers rest))
    (type : head.text ∈ typeKeywords → motive (w.declareType path head.text start modifiers rest))
    (delegate : head.text = "delegate" → motive (takeStatement rest >>= fun p => pure (w, p.2)))
    (constants : head.text ∉ "enum" :: "delegate" :: typeKeywords →
      (w.scope.inType = true ∨
        head.text ≠ "using" ∧ head.text ≠ "namespace" ∧
        ¬ (head.text = "global" ∧ headIs "using" rest = true)) → modifiers.contains "const" = true →
      motive (w.declareConstants (head :: rest)))
    (member : head.text ∉ "enum" :: "delegate" :: typeKeywords →
      modifiers.contains "const" = false → motive (w.declareMember modifiers (head :: rest))) :
    motive (w.declareHead path start attributes modifiers head rest) := by
  simp only [Walk.declareHead, Bool.and_eq_true, Bool.not_eq_true', beq_iff_eq,
    List.contains_iff_mem]
  split
  · next h => exact importGlobally h.1.1 h.1.2 h.2
  · next hglobal =>
    split
    · next h => exact importLocally h.1 h.2
    · next husing =>
      split
      · next h => exact inNamespace h.1 h.2
      · next hnamespace =>
        split
        · next h => exact enum h
        · next henum =>
          split
          · next h => exact type h
          · next htype =>
            split
            · next h => exact delegate h
            · next hdelegate =>
              have hword : head.text ∉ "enum" :: "delegate" :: typeKeywords := by
                simp only [List.mem_cons, not_or]
                exact ⟨henum, hdelegate, htype⟩
              split
              · next hconst =>
                refine constants hword ?_ (List.contains_iff_mem.2 hconst)
                cases hlevel : w.scope.inType with
                | true => exact Or.inl rfl
                | false =>
                    exact Or.inr ⟨fun h => husing ⟨hlevel, h⟩, fun h => hnamespace ⟨hlevel, h⟩,
                      fun h => hglobal ⟨⟨hlevel, h.1⟩, h.2⟩⟩
              · next hconst =>
                  exact member hword
                    (Bool.eq_false_iff.2 fun h => hconst (List.contains_iff_mem.1 h))

/-- A declaration takes a token, unless it is a member that begins with a closing brace. -/
theorem Walk.declareHead_length {w w' : Walk} {path : String} {start head : Token}
    {attributes : List Attribute} {modifiers : List String} {ts rest : List Token}
    (h : w.declareHead path start attributes modifiers head ts = .ok (w', rest)) :
    rest.length < (head :: ts).length ∨
      head.text = closingBrace ∧ rest.length ≤ (head :: ts).length := by
  revert h
  refine Walk.declareHead_cases (motive := fun x => x = .ok (w', rest) → _) ?importGlobally
    ?importLocally ?inNamespace ?enum ?type ?delegate ?constants ?member
  case importGlobally =>
    intro _ _ _ h
    have hlength := Walk.declareGlobalUsing_length_lt h
    simp only [List.length_drop] at hlength
    simp only [List.length_cons]
    omega
  case importLocally =>
    exact fun _ _ h => Or.inl (Nat.lt_succ_of_lt (Walk.declareUsing_length_lt h))
  case inNamespace =>
    exact fun _ _ h => Or.inl (Nat.lt_succ_of_lt (Walk.declareNamespace_length_lt h))
  case enum => exact fun _ h => Or.inl (Nat.lt_succ_of_lt (Walk.declareEnum_length_lt h))
  case type => exact fun _ h => Or.inl (Nat.lt_succ_of_lt (Walk.declareType_length_lt h))
  case delegate =>
    intro _ h
    obtain ⟨⟨inside, rest'⟩, hread, h⟩ := bind_eq_ok.1 h
    cases h
    exact Or.inl (Nat.lt_succ_of_lt (takeStatement_length_lt hread))
  case constants => exact fun _ _ _ h => Or.inl (Walk.declareConstants_length_lt h)
  case member =>
    intro _ _ h
    by_cases hhead : head.text = closingBrace
    · exact Or.inr ⟨hhead, Walk.declareMember_length_le h⟩
    · exact Or.inl (Walk.declareMember_length_lt hhead h)

theorem Walk.declare_length_lt {w w' : Walk} {path : String} {start : Token}
    {ts rest : List Token} (hstart : start.text ≠ closingBrace)
    (h : w.declare path start ts = .ok (w', rest)) : rest.length < (start :: ts).length := by
  obtain ⟨⟨attributes, afterSections⟩, h1, h⟩ := bind_eq_ok.1 h
  have h1 := readSections_shrinks h1
  have h2 := readModifiers_shrinks afterSections
  simp only at h
  split at h
  · cases h
  · next head tail heq =>
    have h3 := Walk.declareHead_length h
    rw [heq] at h2
    rcases h1 with h1 | h1
    · rcases h2 with h2 | h2
      · rw [← h2] at h1
        cases h1
        rcases h3 with h3 | ⟨h3, _⟩
        · exact h3
        · exact absurd h3 hstart
      · subst h1
        rcases h3 with h3 | ⟨_, h3⟩ <;> omega
    · have h2 : (head :: tail).length ≤ afterSections.length := by
        rcases h2 with h2 | h2
        · exact Nat.le_of_eq (congrArg List.length h2)
        · exact Nat.le_of_lt h2
      rcases h3 with h3 | ⟨_, h3⟩ <;> omega

/-! ### The whole file -/

/-- The walk over all remaining tokens.  At the end only the scope of the file may be open. -/
def Walk.run (path : String) (w : Walk) (ts : List Token) : Except Fault Walk :=
  match ts with
  | [] => if w.outer.isEmpty then .ok w else .error (.malformed .missingClosingBrace none)
  | t :: rest =>
    if _hbrace : t.text = closingBrace then
      match w.close? with
      | some w => Walk.run path w rest
      | none => .error (.at .strayClosingBrace t)
    else if t.text = ";" then Walk.run path w rest
    else
      match _h : w.declare path t rest with
      | .ok (w, rest) => Walk.run path w rest
      | .error e => .error e
  termination_by ts.length
  decreasing_by
    · exact Nat.lt_succ_self _
    · exact Nat.lt_succ_self _
    · exact Walk.declare_length_lt _hbrace _h

/-- The walk, as a chain of steps. -/
theorem Walk.run_cons (path : String) (w : Walk) (t : Token) (rest : List Token) :
    Walk.run path w (t :: rest) =
      if t.text = closingBrace then
        match w.close? with
        | some w => Walk.run path w rest
        | none => .error (.at .strayClosingBrace t)
      else if t.text = ";" then Walk.run path w rest
      else w.declare path t rest >>= fun (next, rest) => Walk.run path next rest := by
  rw [Walk.run]
  split
  · rfl
  · split
    · rfl
    · split
      · next w' rest' h => rw [h]; rfl
      · next e h => rw [h]; rfl

/-- The declarations of a file of which the walk has come to its end. -/
def Walk.result (w : Walk) (path : String) : SourceFile where
  path := path
  usings := w.scope.usings
  enums := w.scope.enums
  types := w.scope.types
  globalUsings := w.globalUsings

/-- The declarations that tokens make up. -/
def readTokens (path : String) (ts : List Token) : Except ParseError SourceFile :=
  match Walk.run path .start ts with
  | .ok w => .ok (w.result path)
  | .error e => .error (e.inFile path ts)

/-- **A file is read** exactly if the walk comes to the end of its tokens. -/
theorem readTokens_eq_ok {path : String} {ts : List Token} {file : SourceFile} :
    readTokens path ts = .ok file ↔
      ∃ w, Walk.run path .start ts = .ok w ∧ file = w.result path := by
  rw [readTokens]
  cases Walk.run path .start ts with
  | ok w => simp [eq_comm]
  | error fault => simp

/-- It is refused exactly if the walk finds a fault, and for this fault. -/
theorem readTokens_eq_error {path : String} {ts : List Token} {e : ParseError} :
    readTokens path ts = .error e ↔
      ∃ fault, Walk.run path .start ts = .error fault ∧ e = fault.inFile path ts := by
  rw [readTokens]
  cases Walk.run path .start ts with
  | ok w => simp
  | error fault => simp [eq_comm]

/-- The declarations of a text. -/
def readSource (path text : String) : Except ParseError SourceFile :=
  readTokens path (tokenise text)

end LocalisedEnum
